import RemoteDiscipline.Service.Basic
/-!
Services without a discipline, each with one simple habit.
-/

namespace RemoteDiscipline

/-- What a simple service does with every call. -/
inductive Habit
  /-- Sends every message back. -/
  | echo
  /-- Never finishes. -/
  | never
  /-- Waits until the call is told to stop. -/
  | awaitCancel
  /-- Ends the call at once. -/
  | refuse (status : Status)
  deriving Inhabited

inductive Habit.Task
  | listening
  /-- A message is on its way back. -/
  | answering (m : Message)
  | leaving (status : Status)

namespace Habit

def Task.ofReceived : Except Error (Option Message) → Task
  | .ok (some m) => .answering m
  | .ok none => .leaving .ok
  | .error e => .leaving e.toStatus

def Task.ofSent : Except Error Unit → Task
  | .ok () => .listening
  | .error e => .leaving e.toStatus

def demand (h : Habit) (cancelled : Bool) : Task → Demand Habit Task
  | .answering m => .send m Task.ofSent
  | .leaving status => .finish h status
  | .listening =>
    match h with
    | .echo => .receive Task.ofReceived
    | .never => .wait
    | .awaitCancel => if cancelled then .proceed h (.leaving (.cancelled "token fired")) else .wait
    | .refuse status => .proceed h (.leaving status)

def Task.stage : Task → Nat
  | .leaving _ => 0
  | _ => 1

def Task.load : Task → Nat
  | .answering _ => 1
  | _ => 0

def service : Service Habit Task where
  start _ := .listening
  demand := demand
  abandon h _ := h
  stage := Task.stage
  load := Task.load
  proceed_lt {w w' b t t'} h := by
    cases t with
    | answering m => cases h
    | leaving s => cases h
    | listening =>
      cases w with
      | echo => cases h
      | never => cases h
      | refuse s =>
        cases h
        exact .inl Nat.zero_lt_one
      | awaitCancel =>
        cases b with
        | false => cases h
        | true =>
          cases h
          exact .inl Nat.zero_lt_one
  receive_le {w b t next} h r := by
    cases t with
    | answering m => cases h
    | leaving s => cases h
    | listening =>
      cases w <;> cases b <;> cases h <;>
        (cases r with
          | error e => exact Nat.zero_le 1
          | ok o => cases o <;> simp [Task.ofReceived, Task.stage])
  receive_end_lt {w b t next} h := by
    cases t with
    | answering m => cases h
    | leaving s => cases h
    | listening => cases w <;> cases b <;> cases h <;> exact Nat.zero_lt_one
  send_lt {w b t m next} h r := by
    cases t with
    | answering m =>
      cases h
      cases r with
      | error e => exact .inl Nat.zero_lt_one
      | ok u => exact .inr ⟨rfl, Nat.zero_lt_one⟩
    | leaving s => cases h
    | listening => cases w <;> cases b <;> cases h

end Habit

end RemoteDiscipline
