import Mathlib.Data.List.TakeWhile
import RemoteDiscipline.Proofs.Closing
import RemoteDiscipline.Proofs.Replies
/-!
What the status of a call tells about the work on it.

A host closes a call with a good status exactly if it has done all that the call asks for and was not
stopped before that. No error carries the code of a good status, whether it comes from the discipline,
from the stream or from the host itself, so no failure can pass for a success.
-/

namespace RemoteDiscipline

/-! ### Errors of a discipline -/

namespace Lifecycle

variable {σ α : Type} {l : Lifecycle σ} {hook : Hook} {e : Error}

theorem code_ne_ok_of_afterHook {r : Except Fault α × σ} (h : (l.afterHook hook r).1 = .error e) :
    e.code ≠ .ok := by
  obtain ⟨r, memory⟩ := r
  cases r with
  | error f =>
      cases h
      exact nofun
  | ok a => cases h

theorem code_ne_ok_of_runValidated {program : σ → Declaring (Except Fault Unit × σ)}
    (h : (l.runValidated hook program).1 = .error e) : e.code ≠ .ok := by
  unfold runValidated at h
  split at h
  · rename_i e' l' hrun
    cases h
    exact code_ne_ok_of_afterHook (congrArg Prod.fst hrun)
  · rename_i l' hrun
    cases hv : l'.metadata.validate with
    | error e' =>
        simp only [hv] at h
        cases h
        exact nofun
    | ok u =>
        simp only [hv] at h
        cases h

theorem code_ne_ok_of_perform (op : Operation) (h : (l.perform op).1 = .error e) : e.code ≠ .ok := by
  cases op with
  | properties | compute => exact code_ne_ok_of_afterHook (eq_error_of_map h)
  | initialise =>
      change l.initialise.1 = _ at h
      unfold initialise at h
      split at h
      · split at h
        · rename_i hrun
          cases h
          exact code_ne_ok_of_afterHook (congrArg Prod.fst hrun)
        · cases h
      · cases h
        exact nofun
  | setStreamOptions size =>
      change (l.setStreamOptions size).1 = _ at h
      unfold setStreamOptions checkChunkSize at h
      by_cases hsize : size = 0
      · simp only [hsize, if_true] at h
        cases h
        exact nofun
      · simp only [hsize, if_false] at h
        cases h
  | setOptions values =>
      change (l.setOptions values).1 = _ at h
      unfold setOptions at h
      split at h
      · cases h
        exact nofun
      · split at h
        · rename_i hrun
          cases h
          exact code_ne_ok_of_afterHook (congrArg Prod.fst hrun)
        · split at h
          · rename_i hrun
            cases h
            exact code_ne_ok_of_afterHook (congrArg Prod.fst hrun)
          · cases h
  | setup =>
      change l.setup.1 = _ at h
      unfold setup at h
      split at h
      · cases h
        exact nofun
      · split at h
        · rename_i hrun
          cases h
          exact code_ne_ok_of_runValidated (congrArg Prod.fst hrun)
        · split at h
          · rename_i hrun
            cases h
            exact code_ne_ok_of_runValidated (congrArg Prod.fst hrun)
          · cases h

end Lifecycle

theorem Call.code_ne_ok_of_send {c c' : Call} {m : Message} {e : Error}
    (h : c.send m = some (.error e, c')) : e.code ≠ .ok := by
  obtain ⟨⟨b, outbox⟩, -, he⟩ := Option.map_eq_some_iff.mp h
  cases b with
  | true => cases he
  | false =>
      cases he
      exact nofun

theorem Call.inbox_of_send {c c' : Call} {m : Message} {r : Except Error Unit}
    (h : c.send m = some (r, c')) : c'.inbox = c.inbox := by
  obtain ⟨⟨b, outbox⟩, -, he⟩ := Option.map_eq_some_iff.mp h
  cases he
  rfl

namespace Host

variable {σ : Type} {h h' : Host σ} {e : Error}

theorem code_ne_ok_of_negotiate {n : Negotiation} {x : Message}
    (hn : h.negotiate n x = (.error e, h')) : e.code ≠ .ok := by
  have herror := congrArg Prod.fst hn
  by_cases hx : n.IsAskedBy x
  · cases n with
    | setStreamOptions =>
        obtain ⟨size, rfl⟩ := hx
        exact Lifecycle.code_ne_ok_of_perform (.setStreamOptions size) (eq_error_of_map herror)
    | setOptions =>
        obtain ⟨values, rfl⟩ := hx
        exact Lifecycle.code_ne_ok_of_perform (.setOptions values) (eq_error_of_map herror)
    | setup =>
        obtain rfl := hx
        exact Lifecycle.code_ne_ok_of_perform .setup (eq_error_of_map herror)
    | getInfo =>
        obtain rfl := hx
        exact Lifecycle.code_ne_ok_of_afterHook (eq_error_of_map herror)
    | getVariableDefinitions | getPartialDefinitions | getAvailableOptions =>
        obtain rfl := hx
        cases herror
  · obtain ⟨e', he', hcode⟩ := negotiate_of_not_asked (h := h) hx
    rw [he'] at hn
    cases hn
    exact hcode

/-- Whether a step ends the work on a call well: there was nothing left to send. -/
def isDone : Connection.Act (Host σ) Task → Bool
  | .turn _ ⟨_, .running (.responding [])⟩ => true
  | .turn _ ⟨_, .running (.sending _ ⟨[], .ok ()⟩)⟩ => true
  | _ => false

def Task.Works : Task → Prop
  | .sending _ p | .committed _ _ p => p.Sincere
  | .leaving _ _ => False
  | _ => True

/-- How far a call has come, when the work on it is done or not, and was stopped or not. -/
inductive Judged : Bool → Bool → Progress Task → Prop
  | working {t : Task} : t.Works → Judged false false (.running t)
  | leaving {ticket : Option Nat} {status : Status} {done : Bool} : status.isOk = done →
      Judged done false (.running (.leaving ticket status))
  | ended {status : Status} {done stopped : Bool} : status.isOk = (done && !stopped) →
      Judged done stopped (.ended status)

theorem Judged.failing (ticket : Option Nat) (he : e.code ≠ .ok) :
    Judged false false (.running (.failing ticket e)) := by
  have hstatus : ¬ e.toStatus.isOk := not_isOk he
  exact .leaving (by simpa using hstatus)

section Connection

open Connection (Act History)

variable {limits : Limits} {arrived taken : List UInt8} {acts : List (Act (Host σ) Task)}
  {w : Host σ} {c c' : Connection Task}

/-- A connection on which the status of the call, if it has one, tells how the work on it has ended. -/
inductive Accounts (acts : List (Act (Host σ) Task)) (c : Connection Task) : Prop
  | opening : c.phase = .opening → acts = [] → Accounts acts c
  | serving {reader : Reader} {call : Served Task} {deadline : Option Deadline} :
      c.phase = .serving reader call deadline → ReaderSincere reader → call.inbox.Sincere →
      Judged (acts.any isDone) (acts.any Act.isStop) call.progress → Accounts acts c
  | ended : c.isEnded →
      (∀ status ∈ acts.filterMap (Act.status? service),
        status.isOk = (acts.any isDone && !acts.any Act.isStop)) → Accounts acts c

theorem Accounts.congr (ha : Accounts acts c) (hphase : c'.phase = c.phase) : Accounts acts c' := by
  cases ha with
  | opening hp hacts => exact .opening (hphase.trans hp) hacts
  | serving hp hreader hin hj => exact .serving (hphase.trans hp) hreader hin hj
  | ended he hstatus =>
      refine .ended ?_ hstatus
      rw [Connection.isEnded, hphase]
      exact he

end Connection

end Host

end RemoteDiscipline
