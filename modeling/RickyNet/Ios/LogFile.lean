import RickyNet.Lib.RotatingLog
import RickyNet.Lib.Runs

/-!
# The log file of the app

`openFile`, at each start of the app, and the writes of `append`.  Here the old file is removed before the
other takes its name, so both may fail on their own, and a handle has an offset: a write behind a failed
`seekToEnd` would go over what is there.

`kept_on_phone`: as long as `seekToEnd` does not fail, whatever else does, the two files have the end of
what was ever written.
-/

namespace RickyNet

def MAX_FILE : Nat := 4000000

/-- How the calls of `openFile` end, where they are made. -/
structure OpenOutcome where
  attributes : Bool
  removeItem : Bool
  moveItem : Bool
  createFile : Bool
  forWriting : Bool
  seekToEnd : Bool

/-- The rotation. -/
def rotateFile (l : RotatingLog UInt8) (o : OpenOutcome) : RotatingLog UInt8 :=
  match l.current with
  | some bytes =>
    if o.attributes = true ∧ bytes.length > MAX_FILE then
      let l := if o.removeItem then l.dropOld else l
      -- `moveItem` does not replace a file
      if o.moveItem = true ∧ l.old = none then l.rotate else l
    else l
  | none => l

/-- `createFile`, unless the file exists. -/
def createFile (l : RotatingLog UInt8) (o : OpenOutcome) : RotatingLog UInt8 :=
  match l.current with
  | some _ => l
  | none => if o.createFile then l.create else l

structure LogFile where
  files : RotatingLog UInt8
  /-- the offset of the handle -/
  handle : Option Nat
  /-- what has been written since the app started -/
  session : List UInt8
  written : List UInt8

namespace LogFile

inductive Act
  /-- the app starts -/
  | openFile (o : OpenOutcome)
  /-- `write(contentsOf:)`; it may fail after `n` bytes -/
  | write (data : List UInt8) (n : Nat)

/-- The files are there, and the app does not run. -/
def start (files : RotatingLog UInt8) : LogFile := ⟨files, none, [], files.all⟩

/-- Where the handle stands after `FileHandle(forWritingTo:)` and `seekToEnd`. -/
def openHandle (l : RotatingLog UInt8) (o : OpenOutcome) : Option Nat :=
  match l.current with
  | some bytes => if o.forWriting then some (if o.seekToEnd then bytes.length else 0) else none
  | none => none

def openFile (s : LogFile) (o : OpenOutcome) : LogFile :=
  let files := createFile (rotateFile s.files o) o
  { s with files := files, handle := openHandle files o, session := [] }

/-- The file with some bytes at an offset. -/
def writeAt (file : List UInt8) (offset : Nat) (bytes : List UInt8) : List UInt8 :=
  file.take offset ++ bytes ++ file.drop (offset + bytes.length)

def write (s : LogFile) (bytes : List UInt8) : LogFile :=
  match s.handle with
  | none => s
  | some offset => { s with
      files := { s.files with current := s.files.current.map (writeAt · offset bytes) }
      handle := some (offset + bytes.length)
      session := s.session ++ bytes
      written := s.written ++ bytes }

def step (s : LogFile) : Act → Option LogFile
  | .openFile o => some (s.openFile o)
  | .write data n => if n ≤ data.length then some (s.write (data.take n)) else none

/-- `seekToEnd` does not fail. -/
def Act.seeks : Act → Bool
  | .openFile o => o.seekToEnd
  | .write _ _ => true

/-- The files keep the end of what was written, and the handle is at the end of the file, which has all
of this session. -/
structure Inv (s : LogFile) : Prop where
  keeps : s.files.Keeps MAX_FILE s.written
  handle : ∀ offset, s.handle = some offset →
    ∃ c, s.files.current = some c ∧ offset = c.length ∧ s.session <:+ c

theorem start_inv (files : RotatingLog UInt8) : (start files).Inv where
  keeps := ⟨List.suffix_refl _, Or.inl rfl⟩
  handle := fun _ h => by cases h

theorem rotateFile_keeps {l : RotatingLog UInt8} {written : List UInt8} (h : l.Keeps MAX_FILE written)
    (o : OpenOutcome) : (rotateFile l o).Keeps MAX_FILE written := by
  unfold rotateFile
  split
  · next bytes hc =>
    split
    · next hcond =>
      have hfull : l.Full MAX_FILE := by
        unfold RotatingLog.Full
        rw [hc]
        exact hcond.2
      -- what is removed is the old file, and the one that is left is full
      have hdrop : (if o.removeItem then l.dropOld else l).Keeps MAX_FILE written ∧
          (if o.removeItem then l.dropOld else l).Full MAX_FILE := by
        split
        · exact ⟨h.dropOld hfull, hfull⟩
        · exact ⟨h, hfull⟩
      show (if o.moveItem = true ∧ (if o.removeItem then l.dropOld else l).old = none then
        (if o.removeItem then l.dropOld else l).rotate else if o.removeItem then l.dropOld else l).Keeps _ _
      by_cases hmove : o.moveItem = true ∧ (if o.removeItem then l.dropOld else l).old = none
      · rw [if_pos hmove]
        exact hdrop.1.rotate hdrop.2
      · rw [if_neg hmove]
        exact hdrop.1
    · exact h
  · exact h

theorem createFile_keeps {l : RotatingLog UInt8} {written : List UInt8} (h : l.Keeps MAX_FILE written)
    (o : OpenOutcome) : (createFile l o).Keeps MAX_FILE written := by
  unfold createFile
  split
  · exact h
  · split
    · exact h.create
    · exact h

theorem openFile_inv {s : LogFile} (hi : s.Inv) {o : OpenOutcome} (ho : o.seekToEnd = true) :
    (s.openFile o).Inv := by
  refine ⟨createFile_keeps (rotateFile_keeps hi.keeps o) o, fun offset hoff => ?_⟩
  have hopen : openHandle (s.openFile o).files o = some offset := hoff
  unfold openHandle at hopen
  rw [ho] at hopen
  split at hopen
  · next bytes hc =>
    split at hopen
    · exact ⟨bytes, hc, (Option.some.inj hopen).symm, List.nil_suffix⟩
    · cases hopen
  · cases hopen

/-- At the end of the file a write is an append. -/
theorem writeAt_length (file bytes : List UInt8) : writeAt file file.length bytes = file ++ bytes := by
  unfold writeAt
  rw [List.take_length, List.drop_of_length_le (by omega), List.append_nil]

theorem write_inv {s : LogFile} (hi : s.Inv) (bytes : List UInt8) : (s.write bytes).Inv := by
  unfold write
  split
  · exact hi
  · next offset hoff =>
    obtain ⟨c, hc, rfl, hsession⟩ := hi.handle offset hoff
    have hfile : s.files.current.map (writeAt · c.length bytes) = some (c ++ bytes) := by
      rw [hc, Option.map_some, writeAt_length]
    have happend : ({ s.files with current := s.files.current.map (writeAt · c.length bytes) } :
        RotatingLog UInt8) = s.files.append bytes := by
      unfold RotatingLog.append
      rw [hfile, hc]
      rfl
    refine ⟨?_, fun offset' hoff' => ⟨c ++ bytes, hfile, ?_, ?_⟩⟩
    · show RotatingLog.Keeps MAX_FILE (s.written ++ bytes) _
      rw [happend]
      exact hi.keeps.append (by rw [hc]; rfl) bytes
    · cases hoff'
      rw [List.length_append]
    · obtain ⟨before, hbefore⟩ := hsession
      exact ⟨before, by rw [← List.append_assoc, hbefore]⟩

theorem step_inv {s s' : LogFile} {a : Act} (hi : s.Inv) (ha : a.seeks = true) (h : s.step a = some s') :
    s'.Inv := by
  cases a with
  | openFile o =>
    cases h
    exact openFile_inv hi ha
  | write data n =>
    simp only [step] at h
    split at h
    · cases h
      exact write_inv hi _
    · cases h

end LogFile

/-- **The phone keeps the end of its log.**  Over any starts of the app, as long as `seekToEnd` does not
fail: the two files, the old one first, are an end of all that was ever written, with the last 4000000
bytes of it among them, and what was written since the start is the end of the one that is open. -/
theorem kept_on_phone (files : RotatingLog UInt8) (acts : List LogFile.Act) (s : LogFile)
    (h : Runs.exec LogFile.step (.start files) acts = some s) (hseek : ∀ a ∈ acts, a.seeks = true) :
    s.files.all <:+ s.written ∧ s.written.rtake 4000000 <:+ s.files.all ∧
    ∀ offset, s.handle = some offset →
      ∃ c, s.files.current = some c ∧ offset = c.length ∧ s.session <:+ c := by
  have hal : Runs.Along LogFile.step (fun _ a => a.seeks = true) (.start files) acts := .of_forall hseek
  have hi : s.Inv := (Runs.throughout_of_along LogFile.Inv (fun _ _ _ => LogFile.step_inv)
    (LogFile.start_inv files) hal).last h
  exact ⟨hi.keeps.suffix, hi.keeps.last, hi.handle⟩

/-- A first start that cannot create the file, and a second one; its write stops half-way. -/
theorem kept_on_phone_run : ∃ acts s, Runs.exec LogFile.step (.start ⟨none, none⟩) acts = some s ∧
    s.handle = some 2 ∧ ∀ offset, s.handle = some offset →
      ∃ c, s.files.current = some c ∧ offset = c.length ∧ s.session <:+ c := by
  have h : Runs.exec LogFile.step (.start ⟨none, none⟩)
      [.openFile ⟨true, true, true, false, true, true⟩, .write [1, 2] 2,
        .openFile ⟨true, true, true, true, true, true⟩, .write [3, 4, 5] 2] = some _ := rfl
  exact ⟨_, _, h, rfl, (kept_on_phone _ _ _ h (by decide)).2.2⟩

end RickyNet
