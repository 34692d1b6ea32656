import RemoteDiscipline.Proofs.Consultations
import RemoteDiscipline.Proofs.Declarations
import RemoteDiscipline.Proofs.Peers
/-!
What a negotiation leaves on both ends.

A client negotiates by calling some methods in order, up to the first that fails
(`Client.negotiate_eq_askAll`). A method that goes well has run its hooks on the server, and the client
has made use of the whole answer; one that fails has run its hooks up to some point, and the client is
as it was (`Client.asked`). So the methods that went well tell how far both ends have come
(`Client.Agreed`): when all of them went well, the hooks have run once each, in order, and the client
knows what they have produced; and when one fails, no later hook has run, and whatever the client knows
is the whole answer of a method that went well, or what it knew before
(`Client.negotiate_synchronises`). A server that answers every method, with frames that are not too
large, is negotiated with successfully (`Client.negotiate_ok`).
-/

namespace RemoteDiscipline

def Negotiation.request (size : Nat) (values : Options) : Negotiation → Message
  | .setStreamOptions => .streamOptions size
  | .setOptions => .options values
  | _ => .empty

def Negotiation.hooks (values : Options) : Negotiation → List HookCall
  | .getInfo => [.properties]
  | .setOptions => [.setOptions values, .configure]
  | .setup => [.setup, .setupPartials]
  | _ => []

namespace Host

variable {σ : Type} {d : Discipline σ} {h h' : Host (σ × List HookCall)} {ms : List Message}

/-! ### Requests to a recorded discipline -/

theorem record_negotiate (hd : h.lifecycle.discipline = d.recorded) (size : Nat) (values : Options)
    (m : Negotiation) :
    ∃ ran, ran <+: m.hooks values ∧
      (h.negotiate m (m.request size values)).2.lifecycle.memory.2 = h.lifecycle.memory.2 ++ ran := by
  cases m with
  | getInfo =>
      refine ⟨_, List.prefix_refl _, ?_⟩
      show h.lifecycle.properties.2.memory.2 = _
      rw [Lifecycle.properties_recorded hd]
      rfl
  | setOptions => exact (Lifecycle.setOptions_recorded hd values).1
  | setup => exact (Lifecycle.setup_recorded hd).1
  | setStreamOptions =>
      refine ⟨[], List.nil_prefix, ?_⟩
      show (h.lifecycle.setStreamOptions size).2.memory.2 = _
      obtain ⟨-, e, he⟩ | ⟨-, he⟩ := h.lifecycle.setStreamOptions_cases size <;> simp [he]
  | getVariableDefinitions | getPartialDefinitions | getAvailableOptions =>
      exact ⟨[], List.nil_prefix, (List.append_nil _).symm⟩

theorem eq_of_getInfo (hd : h.lifecycle.discipline = d.recorded)
    (hn : h.negotiate .getInfo .empty = (.ok ms, h')) :
    ∃ p, (d.properties h.lifecycle.memory.1).1 = .ok p ∧ ms = [.properties p] ∧
      h'.lifecycle = { h.lifecycle with
        memory := ((d.properties h.lifecycle.memory.1).2, h.lifecycle.memory.2 ++ [.properties]) } := by
  have hr : h.lifecycle.properties.1.map (fun p => [Message.properties p]) = .ok ms :=
    congrArg Prod.fst hn
  have hl : h.lifecycle.properties.2 = h'.lifecycle := congrArg (fun r => r.2.lifecycle) hn
  rw [Lifecycle.properties_recorded hd] at hr hl
  obtain ⟨p, hp, rfl⟩ := exists_of_map_eq_ok hr
  refine ⟨p, ?_, rfl, hl.symm⟩
  cases hresult : (d.properties h.lifecycle.memory.1).1 with
  | error f =>
      rw [hresult] at hp
      cases hp
  | ok p' =>
      rw [hresult] at hp
      cases hp
      rfl

theorem eq_of_acknowledge {r : Except Error Unit × Lifecycle (σ × List HookCall)}
    (hn : acknowledge (h.after r) = (.ok ms, h')) :
    ms = [.empty] ∧ r.1 = .ok () ∧ h'.lifecycle = r.2 := by
  obtain ⟨u, hu, rfl⟩ := exists_of_map_eq_ok (congrArg Prod.fst hn)
  exact ⟨rfl, hu, (congrArg (fun r => r.2.lifecycle) hn).symm⟩

theorem eq_of_setStreamOptions {size : Nat}
    (hn : h.negotiate .setStreamOptions (.streamOptions size) = (.ok ms, h')) :
    ms = [.empty] ∧ h'.lifecycle = { h.lifecycle with chunkSize := size } := by
  obtain ⟨rfl, hok, hl⟩ := eq_of_acknowledge (r := h.lifecycle.setStreamOptions size) hn
  obtain ⟨-, e, he⟩ | ⟨-, he⟩ := h.lifecycle.setStreamOptions_cases size
  · rw [he] at hok
    cases hok
  · rw [he] at hl
    exact ⟨rfl, hl⟩

theorem eq_of_setOptions {values : Options} (hd : h.lifecycle.discipline = d.recorded)
    (hn : h.negotiate .setOptions (.options values) = (.ok ms, h')) :
    ms = [.empty] ∧ h'.lifecycle = { h.lifecycle with
      memory := ((d.configure (d.setOptions values h.lifecycle.memory.1).2).2,
        h.lifecycle.memory.2 ++ [.setOptions values, .configure])
      state := .configured } := by
  obtain ⟨rfl, hok, hl⟩ := eq_of_acknowledge (r := h.lifecycle.setOptions values) hn
  exact ⟨rfl, hl.trans ((Lifecycle.setOptions_recorded hd values).2 hok)⟩

theorem eq_of_setup (hd : h.lifecycle.discipline = d.recorded)
    (hn : h.negotiate .setup .empty = (.ok ms, h')) :
    ms = [.empty] ∧ h'.lifecycle.metadata.Valid h.lifecycle.metadata.kind ∧
      h'.lifecycle = { h.lifecycle with
        memory := ((d.declareAll h.lifecycle.memory.1
            h.lifecycle.metadata.clearVariables.clearBlocks).1,
          h.lifecycle.memory.2 ++ [.setup, .setupPartials])
        metadata := (d.declareAll h.lifecycle.memory.1
          h.lifecycle.metadata.clearVariables.clearBlocks).2
        state := .ready
        generation := h.lifecycle.generation + 1 } := by
  obtain ⟨rfl, hok, hl⟩ := eq_of_acknowledge (r := h.lifecycle.setup) hn
  exact ⟨rfl, hl ▸ Lifecycle.valid_of_setup hok, hl.trans ((Lifecycle.setup_recorded hd).2 hok)⟩

/-- What a host says to some methods, one after the other. -/
def answers (size : Nat) (values : Options) :
    List Negotiation → Host (σ × List HookCall) → Except Error (List (List Message))
  | [], _ => .ok []
  | m :: rest, h =>
    match h.negotiate m (m.request size values) with
    | (.error e, _) => .error e
    | (.ok ms, h) => (answers size values rest h).map (ms :: ·)

theorem answers_cons {size : Nat} {values : Options} {m : Negotiation} {rest : List Negotiation}
    {all : List (List Message)} (ha : h.answers size values (m :: rest) = .ok all) :
    ∃ ms h' others, h.negotiate m (m.request size values) = (.ok ms, h') ∧
      h'.answers size values rest = .ok others ∧ all = ms :: others := by
  rw [answers] at ha
  split at ha
  · cases ha
  · rename_i ms h' hn
    obtain ⟨others, hothers, rfl⟩ := exists_of_map_eq_ok ha
    exact ⟨ms, h', others, hn, hothers, rfl⟩

end Host

/-! ### What the hooks produce -/

namespace Discipline

variable {σ : Type}

def handle (d : Discipline σ) (values : Options) (s : σ) : Negotiation → σ
  | .getInfo => (d.properties s).2
  | .setOptions => (d.configure (d.setOptions values s).2).2
  | _ => s

/-- The memory that the setup finds: the properties have been asked for, and the options have been
set, if there are any. -/
def prepared (d : Discipline σ) (values : Options) (s : σ) : σ :=
  let s := (d.properties s).2
  if values.isEmpty then s else (d.configure (d.setOptions values s).2).2

/-- What is declared when the hooks of a negotiation have run. -/
def negotiated (d : Discipline σ) (values : Options) (l : Lifecycle (σ × List HookCall)) : Metadata :=
  (d.declareAll (d.prepared values l.memory.1) l.metadata.clearVariables.clearBlocks).2

end Discipline

namespace Client

variable {ω τ σ : Type}

/-- The methods that a client calls before the setup. -/
def preparations (values : Options) : List Negotiation :=
  [.getInfo, .setStreamOptions] ++ if values.isEmpty then [] else [.setOptions]

def agenda (values : Options) : List Negotiation :=
  preparations values ++ [.setup, .getVariableDefinitions, .getPartialDefinitions]

theorem foldl_preparations (d : Discipline σ) (values : Options) (s : σ) :
    (preparations values).foldl (d.handle values) s = d.prepared values s := by
  unfold preparations Discipline.prepared
  split <;> rfl

/-- What stands in front of each method of a negotiation. -/
theorem agenda_cases {values : Options} {done rest : List Negotiation} {m : Negotiation}
    (h : agenda values = done ++ m :: rest) :
    (m = .getInfo ∧ done = []) ∨ (m = .setStreamOptions ∧ done = [.getInfo]) ∨
      (m = .setOptions ∧ done = [.getInfo, .setStreamOptions]) ∨
      (m = .setup ∧ done = preparations values) ∨
      (m = .getVariableDefinitions ∧ done = preparations values ++ [.setup]) ∨
      (m = .getPartialDefinitions ∧
        done = preparations values ++ [.setup, .getVariableDefinitions]) := by
  unfold agenda preparations at *
  split at h
  · rcases done with _ | ⟨a₁, _ | ⟨a₂, _ | ⟨a₃, _ | ⟨a₄, _ | ⟨a₅, done⟩⟩⟩⟩⟩ <;> simp_all
  · rcases done with _ | ⟨a₁, _ | ⟨a₂, _ | ⟨a₃, _ | ⟨a₄, _ | ⟨a₅, _ | ⟨a₆, done⟩⟩⟩⟩⟩⟩ <;>
      simp_all

/-! ### One method after the other -/

def ask (s : Service ω τ) (values : Options) (m : Negotiation) (c : Client) (n : Network ω) :
    Except Error Unit × Client × Network ω :=
  match m with
  | .getInfo =>
    let (r, c, n) := c.getInfo s n
    (r.map fun _ => (), c, n)
  | .setStreamOptions => ((c.sendStreamOptions s n).1, c, (c.sendStreamOptions s n).2)
  | .setOptions => ((c.sendOptions s values n).1, c, (c.sendOptions s values n).2)
  | .setup => ((c.setup s n).1, c, (c.setup s n).2)
  | .getVariableDefinitions =>
    let (r, c, n) := c.getVariables s n
    (r.map fun _ => (), c, n)
  | .getPartialDefinitions =>
    let (r, c, n) := c.getBlocks s n
    (r.map fun _ => (), c, n)
  | .getAvailableOptions =>
    let (r, n) := c.getOptions s n
    (r.map fun _ => (), c, n)

def askAll (s : Service ω τ) (values : Options) :
    List Negotiation → Client → Network ω → Except Error Unit × Client × Network ω
  | [], c, n => (.ok (), c, n)
  | m :: rest, c, n =>
    match c.ask s values m n with
    | (.error e, c, n) => (.error e, c, n)
    | (.ok (), c, n) => askAll s values rest c n

theorem askAll_of_setup (s : Service ω τ) (values : Options) (c : Client) (n : Network ω) :
    askAll s values [.setup, .getVariableDefinitions, .getPartialDefinitions] c n =
      match c.setup s n with
      | (.error e, n) => (.error e, c, n)
      | (.ok (), n) =>
        match c.getVariables s n with
        | (.error e, c, n) => (.error e, c, n)
        | (.ok _, c, n) =>
          match c.getBlocks s n with
          | (.error e, c, n) => (.error e, c, n)
          | (.ok _, c, n) => (.ok (), c, n) := by
  simp only [askAll, ask]
  cases c.setup s n with
  | mk r n₁ =>
      cases r with
      | error e => rfl
      | ok u =>
          dsimp only
          cases c.getVariables s n₁ with
          | mk r r₂ =>
              cases r with
              | error e => rfl
              | ok l =>
                  dsimp only [Except.map]
                  cases r₂.1.getBlocks s r₂.2 with
                  | mk r r₃ => cases r <;> rfl

theorem negotiate_eq_askAll (s : Service ω τ) (values : Options) (c : Client) (n : Network ω) :
    c.negotiate s values n = askAll s values (agenda values) c n := by
  unfold negotiate agenda preparations
  simp only [List.cons_append, List.nil_append, askAll, ask]
  cases c.getInfo s n with
  | mk r r₁ =>
      cases r with
      | error e => rfl
      | ok p =>
          dsimp only [Except.map]
          cases r₁.1.sendStreamOptions s r₁.2 with
          | mk r n₂ =>
              cases r with
              | error e => rfl
              | ok u =>
                  dsimp only
                  cases values.isEmpty with
                  | true => exact (askAll_of_setup s values r₁.1 n₂).symm
                  | false =>
                      simp only [Bool.false_eq_true, if_false, List.cons_append, List.nil_append,
                        askAll, ask]
                      cases r₁.1.sendOptions s values n₂ with
                      | mk r n₃ =>
                          cases r with
                          | error e => rfl
                          | ok u => exact (askAll_of_setup s values r₁.1 n₃).symm

/-! ### The server -/

section Server

variable {d : Discipline σ} {size : Nat} {values : Options} {l₀ l : Lifecycle (σ × List HookCall)}
  {done rest : List Negotiation} {m : Negotiation} {h h' : Host (σ × List HookCall)}
  {ms : List Message}

/-- What has become of the lifecycle `l₀` when some methods of a negotiation have been answered. -/
structure Served (d : Discipline σ) (size : Nat) (values : Options)
    (l₀ : Lifecycle (σ × List HookCall)) (done : List Negotiation)
    (l : Lifecycle (σ × List HookCall)) : Prop where
  discipline : l.discipline = d.recorded
  record : l.memory.2 = l₀.memory.2 ++ done.flatMap (Negotiation.hooks values)
  chunkSize : .setStreamOptions ∈ done → l.chunkSize = size
  before : .setup ∉ done →
    l.metadata = l₀.metadata ∧ l.memory.1 = done.foldl (d.handle values) l₀.memory.1
  ready : .setup ∈ done → l.state = .ready ∧ l.metadata = d.negotiated values l₀ ∧
    l.metadata.Valid l₀.metadata.kind

inductive Answers (d : Discipline σ) (values : Options) (l₀ : Lifecycle (σ × List HookCall)) :
    Negotiation → List Message → Prop
  | properties {p : Properties} : (d.properties l₀.memory.1).1 = .ok p →
      Answers d values l₀ .getInfo [.properties p]
  | empty {m : Negotiation} : m = .setStreamOptions ∨ m = .setOptions ∨ m = .setup →
      Answers d values l₀ m [.empty]
  | variableList : Answers d values l₀ .getVariableDefinitions
      ((d.negotiated values l₀).variableList.map .variableInfo)
  | blockList : Answers d values l₀ .getPartialDefinitions
      ((d.negotiated values l₀).blockList.map .blockInfo)

theorem Served.tell (hs : Served d size values l₀ done l) (hstream : .setStreamOptions ∈ done)
    (hsetup : .setup ∈ done) (hm : m.hooks values = []) : Served d size values l₀ (done ++ [m]) l where
  discipline := hs.discipline
  record := by simp [hs.record, hm]
  chunkSize _ := hs.chunkSize hstream
  before h := absurd (List.mem_append_left _ hsetup) h
  ready _ := hs.ready hsetup

theorem Served.step (hs : Served d size values l₀ done h.lifecycle)
    (hnext : agenda values = done ++ m :: rest)
    (hn : h.negotiate m (m.request size values) = (.ok ms, h')) :
    Served d size values l₀ (done ++ [m]) h'.lifecycle ∧ Answers d values l₀ m ms := by
  have hrecord (hl : h'.lifecycle.memory.2 = h.lifecycle.memory.2 ++ m.hooks values) :
      h'.lifecycle.memory.2 = l₀.memory.2 ++ (done ++ [m]).flatMap (Negotiation.hooks values) := by
    rw [hl, hs.record]
    simp
  -- In the order of the agenda: each method is answered by what its own hooks have left.
  obtain ⟨rfl, rfl⟩ | ⟨rfl, rfl⟩ | ⟨rfl, rfl⟩ | ⟨rfl, rfl⟩ | ⟨rfl, rfl⟩ | ⟨rfl, rfl⟩ :=
    agenda_cases hnext
  · obtain ⟨p, hp, rfl, hl⟩ := Host.eq_of_getInfo hs.discipline hn
    obtain ⟨hmetadata, hmemory⟩ := hs.before (by simp)
    rw [hmemory] at hp hl
    refine ⟨⟨?_, hrecord (congrArg (·.memory.2) hl), by simp, fun _ => ?_, by simp⟩,
      .properties hp⟩
    · rw [hl]
      exact hs.discipline
    · rw [hl]
      exact ⟨hmetadata, rfl⟩
  · obtain ⟨rfl, hl⟩ := Host.eq_of_setStreamOptions hn
    obtain ⟨hmetadata, hmemory⟩ := hs.before (by simp)
    refine ⟨⟨?_, hrecord ?_, fun _ => by rw [hl], fun _ => ?_, by simp⟩, .empty (.inl rfl)⟩ <;>
      rw [hl]
    · exact hs.discipline
    · exact (List.append_nil _).symm
    · exact ⟨hmetadata, hmemory⟩
  · obtain ⟨rfl, hl⟩ := Host.eq_of_setOptions hs.discipline hn
    obtain ⟨hmetadata, hmemory⟩ := hs.before (by simp)
    rw [hmemory] at hl
    refine ⟨⟨?_, hrecord (congrArg (·.memory.2) hl), fun _ => ?_, fun _ => ?_, by simp⟩,
      .empty (.inr (.inl rfl))⟩ <;> rw [hl]
    · exact hs.discipline
    · exact hs.chunkSize (by simp)
    · exact ⟨hmetadata, rfl⟩
  · obtain ⟨rfl, hvalid, hl⟩ := Host.eq_of_setup hs.discipline hn
    obtain ⟨hmetadata, hmemory⟩ := hs.before (by unfold preparations; split <;> simp)
    rw [hmemory, hmetadata, foldl_preparations] at hl
    refine ⟨⟨?_, hrecord (congrArg (·.memory.2) hl), fun _ => ?_, by simp, fun _ => ?_⟩,
      .empty (.inr (.inr rfl))⟩
    · rw [hl]
      exact hs.discipline
    · rw [hl]
      exact hs.chunkSize (by simp [preparations])
    · rw [hmetadata] at hvalid
      refine ⟨?_, ?_, hvalid⟩ <;> rw [hl]
      rfl
  · cases hn
    refine ⟨hs.tell (by simp [preparations]) (by simp) rfl, ?_⟩
    rw [(hs.ready (by simp)).2.1]
    exact .variableList
  · cases hn
    refine ⟨hs.tell (by simp [preparations]) (by simp) rfl, ?_⟩
    rw [(hs.ready (by simp)).2.1]
    exact .blockList

/-- A method that fails has run some of its hooks at most. -/
theorem Served.missed (hs : Served d size values l₀ done h.lifecycle)
    (hmissed : h' = h ∨ h' = (h.negotiate m (m.request size values)).2) :
    ∃ ran, ran <+: m.hooks values ∧
      h'.lifecycle.memory.2 = l₀.memory.2 ++ done.flatMap (Negotiation.hooks values) ++ ran := by
  obtain rfl | rfl := hmissed
  · exact ⟨[], List.nil_prefix, by rw [hs.record, List.append_nil]⟩
  · obtain ⟨ran, hran, hrecord⟩ := Host.record_negotiate hs.discipline size values m
    exact ⟨ran, hran, by rw [hrecord, hs.record]⟩

end Server

/-! ### The client -/

section Caches

variable {d : Discipline σ} {values : Options} {l₀ : Lifecycle (σ × List HookCall)}
  {done : List Negotiation} {m : Negotiation} {c₀ c c' : Client} {ms : List Message}

/-- What a client knows when some methods of a negotiation have gone well: the whole answers to
these, and besides them what it knew before. -/
structure Keeps (d : Discipline σ) (values : Options) (l₀ : Lifecycle (σ × List HookCall))
    (c₀ : Client) (done : List Negotiation) (c : Client) : Prop where
  config : c.config = c₀.config
  properties : if .getInfo ∈ done
    then ∃ p, (d.properties l₀.memory.1).1 = .ok p ∧ c.properties = some p
    else c.properties = c₀.properties
  variableList : c.variableList = if .getVariableDefinitions ∈ done
    then (d.negotiated values l₀).variableList else c₀.variableList
  blockList : c.blockList = if .getPartialDefinitions ∈ done
    then (d.negotiated values l₀).blockList else c₀.blockList

inductive Learns (c : Client) : Negotiation → List Message → Client → Prop
  | properties {p : Properties} : Learns c .getInfo [.properties p] { c with properties := some p }
  | variableList {l : List VariableInfo} : Learns c .getVariableDefinitions (l.map .variableInfo)
      { c with variableList := l, hasDefinitions := true }
  | blockList {l : List BlockInfo} : Learns c .getPartialDefinitions (l.map .blockInfo)
      { c with blockList := l }
  | nothing {m : Negotiation} {ms : List Message} :
      m ≠ .getInfo → m ≠ .getVariableDefinitions → m ≠ .getPartialDefinitions → Learns c m ms c

/-- A whole answer replaces what the client knew. -/
theorem Keeps.step (hk : Keeps d values l₀ c₀ done c) (ha : Answers d values l₀ m ms)
    (hl : Learns c m ms c') : Keeps d values l₀ c₀ (done ++ [m]) c' := by
  have hkept (a : Negotiation) (h : m ≠ a) : a ∈ done ++ [m] ↔ a ∈ done := by
    simp [h.symm]
  cases hl with
  | @properties p =>
      refine ⟨hk.config, ?_, ?_, ?_⟩
      · rw [if_pos (by simp)]
        cases ha with
        | properties hp => exact ⟨p, hp, rfl⟩
      · simpa only [hkept .getVariableDefinitions (by simp)] using hk.variableList
      · simpa only [hkept .getPartialDefinitions (by simp)] using hk.blockList
  | @variableList l =>
      refine ⟨hk.config, ?_, ?_, ?_⟩
      · simpa only [hkept .getInfo (by simp)] using hk.properties
      · rw [if_pos (by simp)]
        generalize hms : l.map Message.variableInfo = ms at ha
        cases ha with
        | empty h => simp at h
        | variableList => exact (List.map_inj_right (by simp)).mp hms
      · simpa only [hkept .getPartialDefinitions (by simp)] using hk.blockList
  | @blockList l =>
      refine ⟨hk.config, ?_, ?_, ?_⟩
      · simpa only [hkept .getInfo (by simp)] using hk.properties
      · simpa only [hkept .getVariableDefinitions (by simp)] using hk.variableList
      · rw [if_pos (by simp)]
        generalize hms : l.map Message.blockInfo = ms at ha
        cases ha with
        | empty h => simp at h
        | blockList => exact (List.map_inj_right (by simp)).mp hms
  | nothing hp hv hb =>
      refine ⟨hk.config, ?_, ?_, ?_⟩
      · simpa only [hkept .getInfo hp] using hk.properties
      · simpa only [hkept .getVariableDefinitions hv] using hk.variableList
      · simpa only [hkept .getPartialDefinitions hb] using hk.blockList

end Caches

section Asking

variable {α : Type} {limits : Limits} {m : Negotiation} {x : Message} {timeout : Duration}
  {limit : Nat} {values : Options} {c : Client} {n n' : Network (Host σ)}

/-- What a client gets for a request, and what the server has done. A request that fails has been
carried out or not. -/
inductive Settled (n : Network (Host σ)) (m : Negotiation) (x : Message)
    (got : List Message → α → Prop) : Except Error α → Network (Host σ) → Prop
  | answered {ms : List Message} {a : α} {n' : Network (Host σ)} : got ms a →
      n.world.negotiate m x = (.ok ms, n'.world) → n'.remote = n.remote →
        Settled n m x got (.ok a) n'
  | failed {e : Error} {n' : Network (Host σ)} :
      n'.world = n.world ∨ n'.world = (n.world.negotiate m x).2 → n'.remote = n.remote →
        Settled n m x got (.error e) n'

theorem Settled.imp {got got' : List Message → α → Prop} {r : Except Error α}
    (hgot : ∀ ms a, got ms a → got' ms a) (h : Settled n m x got r n') :
    Settled n m x got' r n' := by
  cases h with
  | answered ha hserved hremote => exact .answered (hgot _ _ ha) hserved hremote
  | failed hmissed hremote => exact .failed hmissed hremote

theorem eq_map_of_mapM {expect : Message → Except Error α} {form : α → Message}
    (hexpect : ∀ y a, expect y = .ok a → y = form a) (ms : List Message) (l : List α)
    (h : ms.mapM expect = .ok l) : ms = l.map form := by
  induction ms generalizing l with
  | nil =>
      cases h
      rfl
  | cons y ms ih =>
      rw [List.mapM_cons] at h
      obtain ⟨a, ha, h⟩ := exists_of_bind_eq_ok h
      obtain ⟨l', hl, h⟩ := exists_of_bind_eq_ok h
      cases h
      rw [List.map_cons, ← ih l' hl, ← hexpect y a ha]

theorem settled_of_request {r : Except Error (List Message)} (f : List Message → Except Error α)
    (hremote : n.remote = .inProcess limits) (hx : x.Fits)
    (hanswer : ∀ messages h', n.world.negotiate m x = (.ok messages, h') → ∀ y ∈ messages, y.Fits)
    (h : ClientCall.request Host.service n (.negotiate m) x timeout limit = (r, n')) :
    Settled n m x (fun ms a => f ms = .ok a) (r.bind f) n' := by
  obtain ⟨hremote', ⟨ms, rfl, hserved⟩ | ⟨e, rfl, hmissed⟩⟩ :=
    ClientCall.outcome_of_request hremote hx hanswer h <;> rw [← hremote] at hremote'
  · show Settled n m x _ (f ms) n'
    cases hf : f ms with
    | error e => exact .failed (.inr (by rw [hserved])) hremote'
    | ok a => exact .answered hf hserved hremote'
  · exact .failed hmissed hremote'

theorem settled_of_unary {r : Except Error α} {expect : Message → Except Error α}
    {form : α → Message} (hexpect : ∀ y a, expect y = .ok a → y = form a)
    (hremote : n.remote = .inProcess limits) (hx : x.Fits)
    (hanswer : ∀ messages h', n.world.negotiate m x = (.ok messages, h') → ∀ y ∈ messages, y.Fits)
    (h : c.unary Host.service m x expect n = (r, n')) :
    Settled n m x (fun ms a => ms = [form a]) r n' := by
  unfold unary ClientCall.unary at h
  cases hrequest : ClientCall.request Host.service n (.negotiate m) x c.config.timeout
    c.config.maxFrameBytes with
  | mk r' n₁ =>
      rw [hrequest] at h
      obtain ⟨rfl, rfl⟩ := Prod.mk.inj h
      have hbind : (r'.bind (ClientCall.single (.negotiate m))).bind expect =
          r'.bind fun ms => (ClientCall.single (.negotiate m) ms).bind expect := by
        cases r' <;> rfl
      rw [hbind]
      refine (settled_of_request _ hremote hx hanswer hrequest).imp fun ms a hf => ?_
      obtain ⟨y, hy, ha⟩ := exists_of_bind_eq_ok hf
      rw [ClientCall.single_eq_ok_iff.mp hy, hexpect y a ha]

theorem settled_of_stream {r : Except Error (List α)} {expect : Message → Except Error α}
    {form : α → Message} (hexpect : ∀ y a, expect y = .ok a → y = form a)
    (hremote : n.remote = .inProcess limits)
    (hanswer : ∀ messages h', n.world.negotiate m .empty = (.ok messages, h') →
      ∀ y ∈ messages, y.Fits)
    (h : c.stream Host.service m expect n = (r, n')) :
    Settled n m .empty (fun ms l => ms = l.map form) r n' := by
  obtain ⟨rfl, rfl⟩ := Prod.mk.inj h
  exact (settled_of_request (x := .empty) _ hremote trivial hanswer rfl).imp
    (eq_map_of_mapM hexpect)

/-- What a client has learnt by a method of a negotiation, and what the server has done. The client
is as it was if the method has failed. -/
inductive Asked (values : Options) (c : Client) (n : Network (Host σ)) (m : Negotiation) :
    Except Error Unit × Client × Network (Host σ) → Prop
  | answered {ms : List Message} {c' : Client} {n' : Network (Host σ)} :
      n.world.negotiate m (m.request c.config.chunkSize values) = (.ok ms, n'.world) →
        Learns c m ms c' → n'.remote = n.remote → Asked values c n m (.ok (), c', n')
  | failed {e : Error} {n' : Network (Host σ)} :
      n'.world = n.world ∨
        n'.world = (n.world.negotiate m (m.request c.config.chunkSize values)).2 →
          n'.remote = n.remote → Asked values c n m (.error e, c, n')

theorem Settled.asked {got : List Message → α → Prop} {r : Except Error α}
    (h : Settled n m (m.request c.config.chunkSize values) got r n') (learn : α → Client)
    (hlearn : ∀ ms a, got ms a → Learns c m ms (learn a)) :
    Asked values c n m (r.map fun _ => (), (r.toOption.map learn).getD c, n') := by
  cases h with
  | answered ha hserved hremote => exact .answered hserved (hlearn _ _ ha) hremote
  | failed hmissed hremote => exact .failed hmissed hremote

theorem asked (hremote : n.remote = .inProcess limits)
    (hx : (m.request c.config.chunkSize values).Fits)
    (hanswer : ∀ messages h',
      n.world.negotiate m (m.request c.config.chunkSize values) = (.ok messages, h') →
        ∀ y ∈ messages, y.Fits) :
    Asked values c n m (c.ask Host.service values m n) := by
  have hempty (y : Message) (u : Unit) (hy : y.expectEmpty = .ok u) : y = .empty := by
    cases y <;> first | rfl | cases hy
  have hquiet (r : Except Error Unit) (n' : Network (Host σ)) (hnothing : ∀ ms, Learns c m ms c)
      (h : c.unary Host.service m (m.request c.config.chunkSize values) Message.expectEmpty n =
        (r, n')) :
      Asked values c n m (r, c, n') := by
    have hasked := (settled_of_unary hempty hremote hx hanswer h).asked (fun _ => c)
      fun ms _ _ => hnothing ms
    cases r <;> exact hasked
  cases m with
  | getInfo =>
      have hexpect (y : Message) (p : Properties) (hy : y.expectProperties = .ok p) :
          y = .properties p := by
        cases y <;> cases hy
        rfl
      unfold ask getInfo
      cases hu : c.unary Host.service .getInfo .empty Message.expectProperties n with
      | mk r n' =>
          have hasked := (settled_of_unary hexpect hremote hx hanswer hu).asked
            (fun p => { c with properties := some p }) fun ms p hms => hms ▸ .properties
          cases r <;> exact hasked
  | setStreamOptions | setOptions | setup =>
      exact hquiet _ _ (fun ms => .nothing (by simp) (by simp) (by simp)) rfl
  | getVariableDefinitions =>
      have hexpect (y : Message) (v : VariableInfo) (hy : y.expectVariableInfo = .ok v) :
          y = .variableInfo v := by
        cases y <;> cases hy
        rfl
      unfold ask getVariables
      cases hu : c.stream Host.service .getVariableDefinitions Message.expectVariableInfo n with
      | mk r n' =>
          have hasked : Asked values c n .getVariableDefinitions _ :=
            (settled_of_stream hexpect hremote hanswer hu).asked
              (fun l => { c with variableList := l, hasDefinitions := true })
              fun ms l hms => hms ▸ .variableList
          cases r <;> exact hasked
  | getPartialDefinitions =>
      have hexpect (y : Message) (b : BlockInfo) (hy : y.expectBlockInfo = .ok b) :
          y = .blockInfo b := by
        cases y <;> cases hy
        rfl
      unfold ask getBlocks
      cases hu : c.stream Host.service .getPartialDefinitions Message.expectBlockInfo n with
      | mk r n' =>
          have hasked : Asked values c n .getPartialDefinitions _ :=
            (settled_of_stream hexpect hremote hanswer hu).asked (fun l => { c with blockList := l })
              fun ms l hms => hms ▸ .blockList
          cases r <;> exact hasked
  | getAvailableOptions =>
      have hexpect (y : Message) (l : List OptionInfo) (hy : y.expectOptionList = .ok l) :
          y = .optionList l := by
        cases y <;> cases hy
        rfl
      unfold ask getOptions
      cases hu : c.unary Host.service .getAvailableOptions .empty Message.expectOptionList n with
      | mk r n' =>
          have hasked := (settled_of_unary hexpect hremote hx hanswer hu).asked
            (fun _ => c) fun ms l hms => .nothing (by simp) (by simp) (by simp)
          cases r <;> exact hasked

end Asking

/-! ### Both ends -/

section Ends

variable {limits : Limits} {d : Discipline σ} {values : Options}
  {l₀ l l' : Lifecycle (σ × List HookCall)} {done rest : List Negotiation} {m : Negotiation}
  {c₀ c c' : Client} {n n' : Network (Host (σ × List HookCall))}

structure Fitting (d : Discipline σ) (values : Options) (l : Lifecycle (σ × List HookCall))
    (c : Client) : Prop where
  size : Wire.FitsSize c.config.chunkSize
  options : (Message.options values).Fits
  properties : ∀ p, (d.properties l.memory.1).1 = .ok p → p.Fits
  variableList : ∀ v ∈ (d.negotiated values l).variableList, v.Fits
  blockList : ∀ b ∈ (d.negotiated values l).blockList, b.Fits

theorem Fitting.request (hf : Fitting d values l c) (m : Negotiation) :
    (m.request c.config.chunkSize values).Fits := by
  cases m with
  | setStreamOptions => exact hf.size
  | setOptions => exact hf.options
  | _ => exact trivial

theorem Fitting.answer {ms : List Message} (hf : Fitting d values l c)
    (ha : Answers d values l m ms) : ∀ y ∈ ms, y.Fits := by
  intro y hy
  cases ha with
  | properties hp =>
      obtain rfl := List.mem_singleton.mp hy
      exact hf.properties _ hp
  | empty =>
      obtain rfl := List.mem_singleton.mp hy
      exact trivial
  | variableList =>
      obtain ⟨v, hv, rfl⟩ := List.mem_map.mp hy
      exact hf.variableList v hv
  | blockList =>
      obtain ⟨b, hb, rfl⟩ := List.mem_map.mp hy
      exact hf.blockList b hb

structure Agreed (limits : Limits) (d : Discipline σ) (values : Options)
    (l₀ : Lifecycle (σ × List HookCall)) (c₀ : Client) (done : List Negotiation) (c : Client)
    (n : Network (Host (σ × List HookCall))) : Prop where
  remote : n.remote = .inProcess limits
  served : Served d c₀.config.chunkSize values l₀ done n.world.lifecycle
  kept : Keeps d values l₀ c₀ done c

structure Interrupted (d : Discipline σ) (values : Options) (l : Lifecycle (σ × List HookCall))
    (c : Client) (done : List Negotiation) (m : Negotiation) (l' : Lifecycle (σ × List HookCall))
    (c' : Client) : Prop where
  record : ∃ ran, ran <+: m.hooks values ∧
    l'.memory.2 = l.memory.2 ++ done.flatMap (Negotiation.hooks values) ++ ran
  kept : Keeps d values l c done c'

theorem Agreed.asked (hf : Fitting d values l₀ c₀) (hp : Agreed limits d values l₀ c₀ done c n)
    (hnext : agenda values = done ++ m :: rest) :
    Asked values c n m (c.ask Host.service values m n) := by
  refine Client.asked hp.remote (hp.kept.config ▸ hf.request m) fun ms h' hn => ?_
  rw [hp.kept.config] at hn
  exact hf.answer (hp.served.step hnext hn).2

theorem Agreed.start (hremote : n.remote = .inProcess limits)
    (hd : n.world.lifecycle.discipline = d.recorded) :
    Agreed limits d values n.world.lifecycle c [] c n :=
  ⟨hremote, ⟨hd, (List.append_nil _).symm, by simp, fun _ => ⟨rfl, rfl⟩, by simp⟩,
    ⟨rfl, rfl, rfl, rfl⟩⟩

theorem Agreed.step {ms : List Message} (hp : Agreed limits d values l₀ c₀ done c n)
    (hnext : agenda values = done ++ m :: rest)
    (hserved : n.world.negotiate m (m.request c.config.chunkSize values) = (.ok ms, n'.world))
    (hlearns : Learns c m ms c') (hremote : n'.remote = n.remote) :
    Agreed limits d values l₀ c₀ (done ++ [m]) c' n' := by
  rw [hp.kept.config] at hserved
  obtain ⟨hserved', hanswers⟩ := hp.served.step hnext hserved
  exact ⟨hremote.trans hp.remote, hserved', hp.kept.step hanswers hlearns⟩

/-- However a negotiation goes on from some point, it ends with all methods done or at one that
fails. -/
theorem outcome_of_askAll {r : Except Error Unit} (hf : Fitting d values l₀ c₀)
    (hp : Agreed limits d values l₀ c₀ done c n) (hnext : agenda values = done ++ rest)
    (h : askAll Host.service values rest c n = (r, c', n')) :
    (r = .ok () ∧ Agreed limits d values l₀ c₀ (agenda values) c' n') ∨
      ∃ e done m rest, r = .error e ∧ agenda values = done ++ m :: rest ∧
        Interrupted d values l₀ c₀ done m n'.world.lifecycle c' := by
  induction rest generalizing done c n with
  | nil =>
      cases h
      rw [hnext, List.append_nil]
      exact .inl ⟨rfl, hp⟩
  | cons m rest ih =>
      have hasked := hp.asked hf hnext
      unfold askAll at h
      generalize c.ask Host.service values m n = asked at h hasked
      cases hasked with
      | answered hserved hlearns hremote =>
          exact ih (hp.step hnext hserved hlearns hremote)
            (by rw [hnext, List.append_assoc]; rfl) h
      | failed hmissed hremote =>
          cases h
          rw [hp.kept.config] at hmissed
          exact .inr ⟨_, done, m, rest, rfl, hnext, hp.served.missed hmissed, hp.kept⟩

/-! ### Negotiations that go well -/

section Taking

variable {ω τ α : Type} {s : Service ω τ} {n n' : Network ω}

theorem unary_of_request {x y : Message} {expect : Message → Except Error α}
    (h : ClientCall.request s n (.negotiate m) x c.config.timeout c.config.maxFrameBytes =
      (.ok [y], n')) : c.unary s m x expect n = (expect y, n') := by
  rw [unary, ClientCall.unary, h]
  rfl

theorem stream_of_request (expect : Message → Except Error α) {form : α → Message} {l : List α}
    (hexpect : ∀ a, expect (form a) = .ok a)
    (h : ClientCall.request s n (.negotiate m) .empty c.config.timeout c.config.maxFrameBytes =
      (.ok (l.map form), n')) : c.stream s m expect n = (.ok l, n') := by
  have hpure : expect ∘ form = fun a => pure (id a) := funext hexpect
  have htaken : (l.map form).mapM expect = .ok l := by
    rw [List.mapM_map, hpure, List.mapM_pure, List.map_id]
    rfl
  rw [stream, h]
  exact congrArg (·, n') htaken

/-- The client takes an answer of the right form. -/
theorem ask_ok {ms : List Message} (ha : Answers d values l₀ m ms)
    (h : ClientCall.request s n (.negotiate m) (m.request c.config.chunkSize values)
      c.config.timeout c.config.maxFrameBytes = (.ok ms, n')) :
    (c.ask s values m n).1 = .ok () := by
  cases ha with
  | properties hp =>
      simp only [Negotiation.request] at h
      simp only [ask, getInfo, unary_of_request h]
      rfl
  | empty hm =>
      obtain rfl | rfl | rfl := hm <;> simp only [Negotiation.request] at h
      · simp only [ask, sendStreamOptions, unary_of_request h]
        rfl
      · simp only [ask, sendOptions, unary_of_request h]
        rfl
      · simp only [ask, setup, unary_of_request h]
        rfl
  | variableList =>
      simp only [Negotiation.request] at h
      have htaken := stream_of_request Message.expectVariableInfo (fun _ => rfl) h
      simp only [ask, getVariables, htaken]
      rfl
  | blockList =>
      simp only [Negotiation.request] at h
      have htaken := stream_of_request Message.expectBlockInfo (fun _ => rfl) h
      simp only [ask, getBlocks, htaken]
      rfl

end Taking

/-- A negotiation that a host answers, method by method, with frames that are not too large for either
end. -/
structure Passing (limits : Limits) (values : Options) (c : Client) (methods : List Negotiation)
    (h : Host (σ × List HookCall)) : Prop where
  linked : h.linked = true
  requests : ∀ m ∈ methods,
    ∀ f ∈ ClientCall.requestFrames m (m.request c.config.chunkSize values) c.config.timeout,
      f.IsAllowed limits.maxFrameBytes
  replies : ∃ answers, h.answers c.config.chunkSize values methods = .ok answers ∧
    ∀ ms ∈ answers, ∀ f ∈ ms.map Frame.message ++ [.close .ok], f.IsAllowed c.config.maxFrameBytes

theorem askAll_ok (hf : Fitting d values l₀ c₀) (htimeout : 0 < c₀.config.timeout)
    (hroom : 1 ≤ limits.channelCapacity) (hp : Agreed limits d values l₀ c₀ done c n)
    (hnext : agenda values = done ++ rest) (hpassing : Passing limits values c₀ rest n.world) :
    (askAll Host.service values rest c n).1 = .ok () := by
  induction rest generalizing done c n with
  | nil => rfl
  | cons m rest ih =>
      obtain ⟨hlinked, hrequests, answers, hanswers, hreplies⟩ := hpassing
      obtain ⟨ms, h', answers', hn, hrest, rfl⟩ := Host.answers_cons hanswers
      have hconfig := hp.kept.config
      obtain ⟨-, ha⟩ := hp.served.step hnext hn
      have hok : (c.ask Host.service values m n).1 = .ok () := by
        have hanswered := ClientCall.request_ok hp.remote hlinked hroom htimeout hn (hf.request m)
          (hf.answer ha) (hrequests m List.mem_cons_self) (hreplies ms List.mem_cons_self)
        rw [← hconfig] at hanswered
        exact ask_ok ha (Prod.ext hanswered rfl)
      have hasked := hp.asked hf hnext
      unfold askAll
      generalize c.ask Host.service values m n = asked at hok hasked
      cases hasked with
      | failed => cases hok
      | @answered ms' c' n' hserved hlearns hremote =>
          have hagreed := hp.step hnext hserved hlearns hremote
          rw [hconfig] at hserved
          have hsame := Prod.mk.inj (hserved.symm.trans hn)
          refine ih hagreed (by rw [hnext, List.append_assoc]; rfl) ⟨?_, ?_, answers', ?_, ?_⟩
          · have hkept := n.world.linked_negotiate m (m.request c₀.config.chunkSize values)
            rw [hserved] at hkept
            exact hkept.trans hlinked
          · exact fun m' hm' => hrequests m' (List.mem_cons_of_mem _ hm')
          · rw [hsame.2]
            exact hrest
          · exact fun ms' hms' => hreplies ms' (List.mem_cons_of_mem _ hms')

/-- A negotiation goes well, if the host answers all of it and every frame can travel. -/
theorem negotiate_ok (hremote : n.remote = .inProcess limits)
    (hd : n.world.lifecycle.discipline = d.recorded) (hf : Fitting d values n.world.lifecycle c)
    (htimeout : 0 < c.config.timeout) (hroom : 1 ≤ limits.channelCapacity)
    (hpassing : Passing limits values c (agenda values) n.world) :
    (c.negotiate Host.service values n).1 = .ok () := by
  rw [negotiate_eq_askAll]
  exact askAll_ok hf htimeout hroom (.start hremote hd) rfl hpassing

/-- Both ends when a negotiation has gone well. -/
structure Synchronised (d : Discipline σ) (values : Options) (l : Lifecycle (σ × List HookCall))
    (c : Client) (l' : Lifecycle (σ × List HookCall)) (c' : Client) : Prop where
  ready : l'.state = .ready
  config : c'.config = c.config
  chunkSize : l'.chunkSize = c'.config.chunkSize
  /-- Every hook has run once, in order. -/
  record : l'.memory.2 = l.memory.2 ++ ([.properties] ++
    (if values.isEmpty then [] else [.setOptions values, .configure]) ++ [.setup, .setupPartials])
  properties : ∃ p, (d.properties l.memory.1).1 = .ok p ∧ c'.properties = some p
  /-- The client knows the variables that have been declared, in order. -/
  variableList : c'.variableList = (d.declarations (d.prepared values l.memory.1)
    l.metadata.clearVariables.clearBlocks).filterMap Declaration.toVariable?
  /-- The client knows the blocks that have been declared, in order. -/
  blockKeys : c'.blockList.map BlockInfo.key = (d.declarations (d.prepared values l.memory.1)
    l.metadata.clearVariables.clearBlocks).filterMap Declaration.toBlock?
  lists : c'.variableList = l'.metadata.variableList ∧ c'.blockList = l'.metadata.blockList
  /-- In particular, the shapes of the blocks follow from those of the variables. -/
  valid : l'.metadata.Valid l.metadata.kind

theorem Agreed.synchronised (hp : Agreed limits d values l c (agenda values) c' n') :
    Synchronised d values l c n'.world.lifecycle c' := by
  have hinfo : .getInfo ∈ agenda values := by simp [agenda, preparations]
  have hstream : .setStreamOptions ∈ agenda values := by simp [agenda, preparations]
  have hsetup : .setup ∈ agenda values := by simp [agenda]
  obtain ⟨hready, hmetadata, hvalid⟩ := hp.served.ready hsetup
  have hvariables : c'.variableList = (d.negotiated values l).variableList := by
    rw [hp.kept.variableList, if_pos (by simp [agenda])]
  have hblocks : c'.blockList = (d.negotiated values l).blockList := by
    rw [hp.kept.blockList, if_pos (by simp [agenda])]
  exact {
    ready := hready
    config := hp.kept.config
    chunkSize := (hp.served.chunkSize hstream).trans (congrArg _ hp.kept.config.symm)
    record := by
      rw [hp.served.record]
      unfold agenda preparations
      cases values.isEmpty <;> rfl
    properties := by
      have hproperties := hp.kept.properties
      rwa [if_pos hinfo] at hproperties
    variableList := by
      rw [hvariables, Discipline.negotiated, Discipline.variableList_declareAll]
      rfl
    blockKeys := by
      rw [hblocks, Discipline.negotiated, Discipline.blockKeys_declareAll]
      rfl
    lists := by rw [hmetadata]; exact ⟨hvariables, hblocks⟩
    valid := hvalid }

/-- A negotiation with a server in the same process brings both ends together, or it stops at a method
that fails: no later hook has run then, and everything that the client knows is the whole answer of a
method that went well, or what it knew before. -/
theorem negotiate_synchronises {r : Except Error Unit} (hremote : n.remote = .inProcess limits)
    (hd : n.world.lifecycle.discipline = d.recorded) (hf : Fitting d values n.world.lifecycle c)
    (h : c.negotiate Host.service values n = (r, c', n')) :
    (r = .ok () ∧ Synchronised d values n.world.lifecycle c n'.world.lifecycle c') ∨
      ∃ e done m rest, r = .error e ∧ agenda values = done ++ m :: rest ∧
        Interrupted d values n.world.lifecycle c done m n'.world.lifecycle c' := by
  rw [negotiate_eq_askAll] at h
  obtain ⟨hr, hp⟩ | hfailed := outcome_of_askAll hf (.start hremote hd) rfl h
  · exact .inl ⟨hr, hp.synchronised⟩
  · exact .inr hfailed

end Ends

end Client

/-- A discipline with two variables of two values, and the block that they make. -/
def Discipline.squaring : Discipline Unit where
  kind := .explicit
  properties s := (.ok { name := "squaring" }, s)
  setup s := .declare (.input "x" [2] "") fun _ => .declare (.output "y" [2] "") fun _ =>
    .done (.ok (), s)
  setupPartials s := .declare (.block "y" "x") fun _ => .done (.ok (), s)

def Host.squaring : Host (Unit × List HookCall) :=
  (register Discipline.squaring.recorded ((), []) .concurrent).2

def Options.second : Options := .ofList [("order", .int 2)]

section Squaring

variable {c : Client}

theorem Host.answers_squaring : Host.squaring.answers 1000 .second (Client.agenda .second) =
    .ok [[.properties { name := "squaring" }], [.empty], [.empty], [.empty],
      [.variableInfo ⟨"x", .input, [2], ""⟩, .variableInfo ⟨"y", .output, [2], ""⟩],
      [.blockInfo ⟨"y", "x", [2, 2]⟩]] := rfl

theorem Client.fitting_squaring (hc : c.config = {}) :
    Fitting Discipline.squaring .second Host.squaring.lifecycle c := by
  have hvariables : (Discipline.squaring.negotiated .second Host.squaring.lifecycle).variableList =
      [⟨"x", .input, [2], ""⟩, ⟨"y", .output, [2], ""⟩] := rfl
  have hblocks : (Discipline.squaring.negotiated .second Host.squaring.lifecycle).blockList =
      [⟨"y", "x", [2, 2]⟩] := rfl
  have htext (t : String) (ht : t.utf8ByteSize ≤ 8) : Wire.FitsText t :=
    show _ < 0x1_0000_0000_0000_0000 by omega
  have hshape (l : List Nat) (hl : l = [2] ∨ l = [2, 2]) : Wire.FitsList Wire.FitsSize l := by
    obtain rfl | rfl := hl <;> simp [Wire.FitsList, Wire.FitsSize]
  have hx := htext "x" (by decide)
  have hy := htext "y" (by decide)
  refine ⟨?_, ?_, ?_, ?_, ?_⟩
  · rw [hc]
    exact show 1000 < 0x1_0000_0000_0000_0000 by decide
  · show Wire.FitsList _ [("order", OptionValue.int 2)]
    simp [Wire.FitsList, Wire.FitsSize, OptionValue.Fits, Wire.Format.IsInteger,
      htext "order" (by decide)]
  · intro p hp
    cases hp
    exact ⟨htext "squaring" (by decide), htext "" (by decide)⟩
  · rw [hvariables]
    simp [VariableInfo.Fits, hx, hy, htext "" (by decide), hshape]
  · rw [hblocks]
    simp [BlockInfo.Fits, hx, hy, hshape]

theorem Client.passing_squaring (hc : c.config = {}) :
    Passing ({} : ServerConfig).limits .second c (agenda .second) Host.squaring := by
  have hrequests : ∀ m ∈ agenda .second,
      ∀ f ∈ ClientCall.requestFrames m (m.request 1000 .second) ({} : ClientConfig).timeout,
        (Wire.frame.write f).length < 0x1_0000_0000 ∧
          (Wire.frame.write f).length ≤ defaultMaxFrameBytes := by
    decide +kernel
  have hreplies : ∀ ms ∈ [[Message.properties { name := "squaring" }], [.empty], [.empty], [.empty],
      [.variableInfo ⟨"x", .input, [2], ""⟩, .variableInfo ⟨"y", .output, [2], ""⟩],
      [.blockInfo ⟨"y", "x", [2, 2]⟩]],
      ∀ f ∈ ms.map Frame.message ++ [.close .ok],
        (Wire.frame.write f).length < 0x1_0000_0000 ∧
          (Wire.frame.write f).length ≤ defaultMaxFrameBytes := by
    decide +kernel
  have hsize : c.config.chunkSize = 1000 := congrArg (·.chunkSize) hc
  have hanswers := Host.answers_squaring
  rw [← hsize] at hanswers
  refine ⟨rfl, ?_, _, hanswers, ?_⟩
  · rw [hc]
    exact fun m hm f hf => ⟨(hrequests m hm f hf).1, (hrequests m hm f hf).2⟩
  · rw [hc]
    exact fun ms hms f hf => ⟨(hreplies ms hms f hf).1, (hreplies ms hms f hf).2⟩

end Squaring

/-- A client that knew another variable knows both variables of the discipline now, and no other. -/
theorem Client.negotiate_squaring :
    let n : Network (Host (Unit × List HookCall)) :=
      ⟨0, .squaring, .inProcess ({} : ServerConfig).limits, []⟩
    let c : Client := { config := {}, variableList := [⟨"u", .input, [3], "m"⟩] }
    let r := c.negotiate Host.service .second n
    r.1 = .ok () ∧ r.2.1.variableList = [⟨"x", .input, [2], ""⟩, ⟨"y", .output, [2], ""⟩] ∧
      r.2.1.blockList.map BlockInfo.key = [⟨"y", "x"⟩] ∧ r.2.2.world.lifecycle.state = .ready := by
  intro n c r
  have hf : Fitting Discipline.squaring .second n.world.lifecycle c := fitting_squaring rfl
  have hok : r.1 = .ok () :=
    negotiate_ok rfl rfl hf (by decide) (by decide) (passing_squaring rfl)
  obtain ⟨-, hs⟩ | ⟨e, done, m, rest, hfailed, -⟩ := Client.negotiate_synchronises rfl rfl hf
    (show c.negotiate Host.service .second n = (r.1, r.2.1, r.2.2) from rfl)
  · have hdeclarations : Discipline.squaring.declarations
        (Discipline.squaring.prepared .second n.world.lifecycle.memory.1)
        n.world.lifecycle.metadata.clearVariables.clearBlocks =
        Discipline.squaring.declarations () (.fresh .explicit) := rfl
    have hv := hs.variableList
    have hb := hs.blockKeys
    rw [hdeclarations] at hv hb
    exact ⟨hok, hv, hb, hs.ready⟩
  · rw [hok] at hfailed
    cases hfailed

end RemoteDiscipline
