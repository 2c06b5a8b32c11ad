import Mathlib.Logic.Function.Basic
import RickyNet.Lib.RotatingLog
import RickyNet.Lib.Runs

/-!
# The log file of the desktop

`open_log_file` and `Tee`, over one process after another.  A process logs to the first directory that it
can create a file in, and a file of more than 5 MB is renamed before it is opened; each call may fail.

`log_retained`: whatever fails, the two files of a directory have the end of what was ever written there.
-/

namespace RickyNet

/-- A directory, by its path. -/
abbrev LogDirs := String → RotatingLog UInt8

def MAX_LOG : Nat := 5000000

/-- How the calls for one directory end, where they are made. -/
structure DirOutcome where
  createDirAll : Bool
  metadata : Bool
  rename : Bool
  opened : Bool

/-- `PathBuf::join`, of a relative name behind a path that is not verbatim.  Behind a bare drive (`C:`) it
puts no separator. -/
def joinPath (base name : String) : String :=
  match base.toList with
  | [] => name
  | [drive, ':'] => if drive.isAlpha then base ++ name else base ++ "\\" ++ name
  | c :: cs =>
    if (c :: cs).getLast? = some '\\' ∨ (c :: cs).getLast? = some '/' then base ++ name
    else base ++ "\\" ++ name

/-- The directories that `open_log_file` tries: `LOCALAPPDATA`, where the executable is, and for
temporary files. -/
def logCandidates (localAppData exeDir : Option String) (tempDir : String) : List String :=
  (localAppData.map (joinPath · "RickyNet")).toList ++ exeDir.toList ++ [tempDir]

/-- The rename of a file that has grown too long; it replaces what was renamed before. -/
def rotateIn (l : RotatingLog UInt8) (o : DirOutcome) : RotatingLog UInt8 :=
  match l.current with
  | some bytes => if o.metadata = true ∧ bytes.length > MAX_LOG ∧ o.rename = true then l.rotate else l
  | none => l

/-- The loop of `open_log_file`. -/
def openLogFile (dirs : LogDirs) : List (String × DirOutcome) → Option String × LogDirs
  | [] => (none, dirs)
  | (dir, o) :: rest =>
    if o.createDirAll then
      let dirs := Function.update dirs dir (rotateIn (dirs dir) o)
      if o.opened then (some dir, Function.update dirs dir (dirs dir).create)
      else openLogFile dirs rest
    else openLogFile dirs rest

/-- The files, and the process that logs. -/
structure Logging where
  dirs : LogDirs
  /-- the directory of the file that `Tee` has open -/
  file : Option String
  /-- what has got to it -/
  session : List UInt8
  /-- what was ever written to the files of a directory -/
  written : String → List UInt8

namespace Logging

inductive Act
  /-- a process starts: `init`, with the three directories and how the calls for each of them end -/
  | init (localAppData exeDir : Option String) (tempDir : String) (outcomes : List DirOutcome)
  /-- `Tee::write`; `write_all` may fail after `n` bytes -/
  | write (buf : List UInt8) (n : Nat)

/-- The files are there, and nobody logs. -/
def start (dirs : LogDirs) : Logging := ⟨dirs, none, [], fun dir => (dirs dir).all⟩

def init (s : Logging) (candidates : List (String × DirOutcome)) : Logging :=
  let (file, dirs) := openLogFile s.dirs candidates
  { s with dirs := dirs, file := file, session := [] }

/-- `Tee::write`, but for the copy on `stderr`. -/
def write (s : Logging) (bytes : List UInt8) : Logging :=
  match s.file with
  | none => s
  | some dir => { s with
      dirs := Function.update s.dirs dir ((s.dirs dir).append bytes)
      session := s.session ++ bytes
      written := Function.update s.written dir (s.written dir ++ bytes) }

def step (s : Logging) : Act → Option Logging
  | .init localAppData exeDir tempDir outcomes =>
    let candidates := logCandidates localAppData exeDir tempDir
    if outcomes.length = candidates.length then some (s.init (candidates.zip outcomes)) else none
  | .write buf n => if n ≤ buf.length then some (s.write (buf.take n)) else none

/-- The files of each directory keep the end of what was written there, and the open file has all that
this process has logged. -/
structure Inv (s : Logging) : Prop where
  keeps : ∀ dir, (s.dirs dir).Keeps MAX_LOG (s.written dir)
  session : ∀ dir, s.file = some dir → ∃ c, (s.dirs dir).current = some c ∧ s.session <:+ c

theorem start_inv (dirs : LogDirs) : (start dirs).Inv where
  keeps := fun _ => ⟨List.suffix_refl _, Or.inl rfl⟩
  session := fun _ h => by cases h

theorem rotateIn_keeps {l : RotatingLog UInt8} {written : List UInt8} (h : l.Keeps MAX_LOG written)
    (o : DirOutcome) : (rotateIn l o).Keeps MAX_LOG written := by
  unfold rotateIn
  split
  · next bytes hc =>
    split
    · next hcond =>
      refine h.rotate ?_
      unfold RotatingLog.Full
      rw [hc]
      exact hcond.2.1
    · exact h
  · exact h

/-- One directory changes, and keeps what it has to. -/
theorem keeps_update {dirs : LogDirs} {written : String → List UInt8}
    (h : ∀ dir, (dirs dir).Keeps MAX_LOG (written dir)) {dir : String} {l : RotatingLog UInt8}
    (hl : l.Keeps MAX_LOG (written dir)) (d : String) :
    (Function.update dirs dir l d).Keeps MAX_LOG (written d) :=
  (Function.forall_update_iff dirs fun d l => l.Keeps MAX_LOG (written d)).2 ⟨hl, fun d _ => h d⟩ d

/-- **Opening the file loses nothing that counts.**  Whichever calls fail, every directory keeps what it
has to, and the file that is open exists. -/
theorem openLogFile_keeps {dirs : LogDirs} {written : String → List UInt8}
    (h : ∀ dir, (dirs dir).Keeps MAX_LOG (written dir)) (candidates : List (String × DirOutcome)) :
    (∀ dir, ((openLogFile dirs candidates).2 dir).Keeps MAX_LOG (written dir)) ∧
    ∀ dir, (openLogFile dirs candidates).1 = some dir →
      ((openLogFile dirs candidates).2 dir).current.isSome = true := by
  induction candidates generalizing dirs with
  | nil => exact ⟨h, fun dir hd => by cases hd⟩
  | cons c rest ih =>
    obtain ⟨dir, o⟩ := c
    have hrot := keeps_update h (rotateIn_keeps (h dir) o)
    unfold openLogFile
    split
    · split
      · refine ⟨keeps_update hrot (hrot dir).create, fun d hd => ?_⟩
        cases hd
        simp [RotatingLog.create]
      · exact ih hrot
    · exact ih h

/-- The first directory in which a file can be created. -/
theorem openLogFile_first (dirs : LogDirs) (candidates : List (String × DirOutcome)) :
    (openLogFile dirs candidates).1 =
      (candidates.find? fun c => c.2.createDirAll && c.2.opened).map (·.1) := by
  induction candidates generalizing dirs with
  | nil => rfl
  | cons c rest ih =>
    obtain ⟨dir, o⟩ := c
    unfold openLogFile
    rw [List.find?_cons]
    cases hc : o.createDirAll with
    | false =>
      simp only [Bool.false_eq_true, if_false, Bool.false_and]
      exact ih dirs
    | true =>
      cases ho : o.opened with
      | false =>
        simp only [Bool.false_eq_true, if_false, if_true, Bool.true_and]
        exact ih _
      | true => simp

theorem init_inv {s : Logging} (hi : s.Inv) (candidates : List (String × DirOutcome)) :
    (s.init candidates).Inv := by
  obtain ⟨hkeeps, hsome⟩ := openLogFile_keeps hi.keeps candidates
  refine ⟨hkeeps, fun dir hfile => ?_⟩
  obtain ⟨c, hc⟩ := Option.isSome_iff_exists.1 (hsome dir hfile)
  exact ⟨c, hc, List.nil_suffix⟩

theorem write_inv {s : Logging} (hi : s.Inv) (bytes : List UInt8) : (s.write bytes).Inv := by
  unfold write
  split
  · exact hi
  · next dir hfile =>
    obtain ⟨c, hc, hsession⟩ := hi.session dir hfile
    refine ⟨fun d => ?_, fun d hd => ?_⟩
    · show (Function.update s.dirs dir _ d).Keeps _ (Function.update s.written dir _ d)
      by_cases hne : d = dir
      · subst hne
        rw [Function.update_self, Function.update_self]
        exact (hi.keeps d).append (by rw [hc]; rfl) bytes
      · rw [Function.update_of_ne hne, Function.update_of_ne hne]
        exact hi.keeps d
    · have hdir : dir = d := Option.some.inj (hfile.symm.trans hd)
      subst hdir
      refine ⟨c ++ bytes, ?_, ?_⟩
      · show (Function.update s.dirs dir _ dir).current = _
        rw [Function.update_self]
        show (s.dirs dir).current.map (· ++ bytes) = _
        rw [hc]
        rfl
      · obtain ⟨before, hbefore⟩ := hsession
        exact ⟨before, by rw [← List.append_assoc, hbefore]⟩

theorem step_inv {s s' : Logging} {a : Act} (hi : s.Inv) (h : s.step a = some s') : s'.Inv := by
  cases a with
  | init localAppData exeDir tempDir outcomes =>
    simp only [step] at h
    split at h
    · cases h
      exact init_inv hi _
    · cases h
  | write buf n =>
    simp only [step] at h
    split at h
    · cases h
      exact write_inv hi _
    · cases h

end Logging

/-- **The log is retained.**  Over any processes, one after another, with any of their calls failing: in
every directory the two files, the old one first, are an end of all that was ever written there, and the
last 5000000 bytes of it are among them; and what the process has got to its file is the end of the one
that is open. -/
theorem log_retained (dirs : LogDirs) (acts : List Logging.Act) (s : Logging)
    (h : Runs.exec Logging.step (.start dirs) acts = some s) :
    (∀ dir, (s.dirs dir).all <:+ s.written dir ∧ (s.written dir).rtake 5000000 <:+ (s.dirs dir).all) ∧
    ∀ dir, s.file = some dir → ∃ c, (s.dirs dir).current = some c ∧ s.session <:+ c := by
  have hi : s.Inv := Runs.exec_inv Logging.step Logging.Inv (fun _ _ _ => Logging.step_inv)
    (Logging.start_inv dirs) h
  exact ⟨fun dir => ⟨(hi.keeps dir).suffix, (hi.keeps dir).last⟩, hi.session⟩

/-- A process that cannot write to the first directory, and one that fails to open the file there; its
write stops half-way. -/
theorem log_retained_run : ∃ acts s, Runs.exec Logging.step (.start fun _ => ⟨none, none⟩) acts = some s ∧
    s.file = some "exe" ∧ s.session = [9, 9] ∧
    ∀ dir, s.file = some dir → ∃ c, (s.dirs dir).current = some c ∧ s.session <:+ c := by
  have h : Runs.exec Logging.step (.start fun _ => ⟨none, none⟩)
      [.init (some "C:\\Users\\x") (some "exe") "temp"
        [⟨false, true, true, true⟩, ⟨true, true, true, true⟩, ⟨true, true, true, true⟩], .write [1, 2, 3] 3,
        .init (some "C:\\Users\\x") (some "exe") "temp"
          [⟨true, true, true, false⟩, ⟨true, true, true, true⟩, ⟨true, true, true, true⟩],
        .write [9, 9, 9] 2] = some _ := rfl
  exact ⟨_, _, h, rfl, rfl, (log_retained _ _ _ h).2⟩

end RickyNet
