import RickyNet.Wire.Codec

/-!
# Shared state between the GUI thread and the workers

`Shared` without its log.  Every operation here is one atomic access; `set_error` makes two that
matter (the text, then the state), and is two operations.
-/

namespace RickyNet

inductive ConnState
  | disconnected
  | connecting
  | connected
  | error
deriving DecidableEq

structure Shared where
  state : ConnState
  error : String
  rx : UInt64
  tx : UInt64
  /-- set to ask the worker to tear down -/
  stop : Bool
  admin : Bool
deriving DecidableEq

namespace Shared

def new : Shared := ⟨.disconnected, "", 0, 0, false, false⟩

def setState (s : Shared) (state : ConnState) : Shared := { s with state := state }

/-- `set_error`, first part. -/
def setErrorText (s : Shared) (msg : String) : Shared := { s with error := msg }

/-- Two stores in one step; the pumps of this worker, which add to the two, do not run yet. -/
def resetCounters (s : Shared) : Shared := { s with rx := 0, tx := 0 }

/-- `tx.fetch_add` -/
def addTx (s : Shared) (n : Nat) : Shared := { s with tx := s.tx + UInt64.ofNat n }

/-- `rx.fetch_add` -/
def addRx (s : Shared) (n : Nat) : Shared := { s with rx := s.rx + UInt64.ofNat n }

def requestStop (s : Shared) : Shared := { s with stop := true }

def clearStop (s : Shared) : Shared := { s with stop := false }

def setAdmin (s : Shared) (v : Bool) : Shared := { s with admin := v }

@[simp] theorem setState_stop (s : Shared) (c : ConnState) : (s.setState c).stop = s.stop := rfl

@[simp] theorem setErrorText_stop (s : Shared) (m : String) : (s.setErrorText m).stop = s.stop := rfl

@[simp] theorem resetCounters_stop (s : Shared) : s.resetCounters.stop = s.stop := rfl

@[simp] theorem clearStop_stop (s : Shared) : s.clearStop.stop = false := rfl

end Shared

end RickyNet
