import Craftling.Effects.Files
import Craftling.Effects.Pool
import Craftling.Control.Records

namespace Craftling.Agentlink
open Effects List
open Control (HostID)

abbrev ConnNo := Nat
abbrev CommandID := Nat
abbrev ChanNo := Nat

structure Result where
  id : CommandID
  error : String
  payload : Bytes
  deriving DecidableEq

structure Arrival where
  no : Nat
  res : Result
  deriving DecidableEq

inductive Err where
  | hostNotConnected
  | marshal (op text : String)
  | send (op text : String)
  | agent (op text : String)
  | context (text : String)
  deriving DecidableEq

/-- Each call holds a lock of its own or none, so it is one step. A channel is made for one command
on one connection. -/
inductive Call where
  | get (host : HostID)
  | newID
  | makeChan (c : ConnNo) (id : CommandID)
  | addWaiter (c : ConnNo) (id : CommandID) (ch : ChanNo)
  | send (c : ConnNo) (id : CommandID) (op : String) (payload : Bytes)
  | select (ch : ChanNo)
  | removeWaiter (c : ConnNo) (id : CommandID)
  | recv (c : ConnNo) (res : Result)
  | lookup (c : ConnNo) (id : CommandID)
  | trySend (ch : ChanNo) (a : Arrival)
  deriving DecidableEq

abbrev Answer : Call → Type
  | .get _ => Option ConnNo
  | .newID => CommandID
  | .makeChan _ _ => ChanNo
  | .addWaiter _ _ _ => Unit
  | .send _ _ _ _ => Except String Unit
  | .select _ => Except String Arrival
  | .removeWaiter _ _ => Unit
  | .recv _ _ => Nat
  | .lookup _ _ => Option ChanNo
  | .trySend _ _ => Unit

abbrev Act := Prog Call Answer

def ask (e : Call) : Act (Answer e) := .call e .done

def reply (op : String) (res : Result) : Except Err Bytes :=
  if res.error ≠ "" then .error (.agent op res.error) else .ok res.payload

def sendAndWait (c : ConnNo) (id : CommandID) (ch : ChanNo) (op : String) (payload : Bytes) :
    Act (Except Err Bytes) := do
  match ← ask (.send c id op payload) with
  | .error text => return .error (.send op text)
  | .ok _ =>
    match ← ask (.select ch) with
    | .error text => return .error (.context text)
    | .ok a => return reply op a.res

/-- `req` is the request's encoding, or the reason why it has none. The waiter is removed on every
way out behind the one that registers it. -/
def callRaw (host : HostID) (op : String) (req : Except String Bytes) : Act (Except Err Bytes) := do
  match ← ask (.get host) with
  | none => return .error .hostNotConnected
  | some c =>
    match req with
    | .error text => return .error (.marshal op text)
    | .ok payload =>
      let id ← ask .newID
      let ch ← ask (.makeChan c id)
      ask (.addWaiter c id ch)
      let r ← sendAndWait c id ch op payload
      ask (.removeWaiter c id)
      return r

/-- The lock is let go between the look for a waiter and the send to it. -/
def resolve (c : ConnNo) (a : Arrival) : Act Unit := do
  match ← ask (.lookup c a.res.id) with
  | none => return ()
  | some ch => ask (.trySend ch a)

def serve (c : ConnNo) (res : Result) : Act Unit := do
  let no ← ask (.recv c res)
  resolve c ⟨no, res⟩

structure Chan where
  conn : ConnNo
  id : CommandID
  buffer : Option Arrival

structure Link where
  registry : HostID → Option ConnNo
  conns : Nat
  waiters : ConnNo → CommandID → Option ChanNo
  chans : List Chan
  results : List (ConnNo × Result)
  nextID : CommandID

def Link.init : Link := ⟨fun _ => none, 0, fun _ _ => none, [], [], 0⟩

def Link.setWaiter (s : Link) (c : ConnNo) (id : CommandID) (w : Option ChanNo) : Link :=
  { s with waiters := fun c' id' => if c' = c ∧ id' = id then w else s.waiters c' id' }

def Link.setBuffer (s : Link) (ch : ChanNo) (b : Option Arrival) : Link :=
  { s with chans := s.chans.modify ch fun x => { x with buffer := b } }

/-- `o` is the text of a send that fails or of a context that has ended. A select whose channel is
empty goes on only when the context ends, and a send to a full channel drops what it sends. -/
def Link.perform (o : Option String) : (e : Call) → Link → Answer e × Link
  | .get host, s => (s.registry host, s)
  | .newID, s => (s.nextID, { s with nextID := s.nextID + 1 })
  | .makeChan c id, s => (s.chans.length, { s with chans := s.chans ++ [⟨c, id, none⟩] })
  | .addWaiter c id ch, s => ((), s.setWaiter c id (some ch))
  | .send _ _ _ _, s =>
    match o with
    | some text => (.error text, s)
    | none => (.ok (), s)
  | .select ch, s =>
    match o, s.chans[ch]?.bind Chan.buffer with
    | some text, _ => (.error text, s)
    | none, some a => (.ok a, s.setBuffer ch none)
    | none, none => (.error "context canceled", s)
  | .removeWaiter c id, s => ((), s.setWaiter c id none)
  | .recv c res, s => (s.results.length, { s with results := s.results ++ [(c, res)] })
  | .lookup c id, s => (s.waiters c id, s)
  | .trySend ch a, s =>
    match s.chans[ch]?.bind Chan.buffer with
    | some _ => ((), s)
    | none => ((), s.setBuffer ch (some a))

inductive Event where
  | connect (host : HostID)
  | disconnect (host : HostID) (c : ConnNo)
  deriving DecidableEq

/-- A connection that another has replaced leaves the registry alone. -/
def Link.other : Event → Link → Option Link
  | .connect host, s =>
    some { s with
      registry := fun h => if h = host then some s.conns else s.registry h
      conns := s.conns + 1 }
  | .disconnect host c, s =>
    some { s with registry := fun h => if h = host ∧ s.registry h = some c then none else s.registry h }

theorem perform_select (s : Link) (o : Option String) (ch : ChanNo) :
    (∃ text, s.perform o (.select ch) = (.error text, s)) ∨
      ∃ a, s.chans[ch]?.bind Chan.buffer = some a ∧
        s.perform o (.select ch) = (.ok a, s.setBuffer ch none) := by
  cases o with
  | some text => exact .inl ⟨text, rfl⟩
  | none =>
    cases hb : s.chans[ch]?.bind Chan.buffer with
    | none => exact .inl ⟨"context canceled", by simp only [Link.perform, hb]⟩
    | some a => exact .inr ⟨a, rfl, by simp only [Link.perform, hb]⟩

theorem perform_trySend (s : Link) (o : Option String) (ch : ChanNo) (a : Arrival) :
    s.perform o (.trySend ch a) = ((), s) ∨
      s.perform o (.trySend ch a) = ((), s.setBuffer ch (some a)) := by
  cases hb : s.chans[ch]?.bind Chan.buffer with
  | none => exact .inr (by simp only [Link.perform, hb])
  | some _ => exact .inl (by simp only [Link.perform, hb])

inductive Job where
  | call (host : HostID) (op : String) (req : Except String Bytes)
  | serve (c : ConnNo) (res : Result)

inductive Stage where
  | idle
  | picked (c : ConnNo)
  | named (c : ConnNo) (id : CommandID)
  | opened (c : ConnNo) (id : CommandID) (ch : ChanNo)
  | added (c : ConnNo) (id : CommandID) (ch : ChanNo)
  | sent (c : ConnNo) (id : CommandID) (ch : ChanNo)
  | settled (c : ConnNo) (id : CommandID) (ch : ChanNo) (got : Option Arrival)
  | closed (c : ConnNo) (id : CommandID) (ch : ChanNo) (got : Option Arrival)
  | received (c : ConnNo) (a : Arrival)
  | found (c : ConnNo) (a : Arrival) (ch : ChanNo)
  deriving DecidableEq

def note : Stage → (e : Call) → Answer e → Stage
  | .idle, .get _, some c => .picked c
  | .picked c, .newID, id => .named c id
  | .named _ _, .makeChan c id, ch => .opened c id ch
  | .opened _ _ _, .addWaiter c id ch, _ => .added c id ch
  | .added _ _ ch, .send c id _ _, .ok _ => .sent c id ch
  | .added _ _ ch, .send c id _ _, .error _ => .settled c id ch none
  | .sent c id _, .select ch, .ok a => .settled c id ch (some a)
  | .sent c id _, .select ch, .error _ => .settled c id ch none
  | .settled _ _ ch got, .removeWaiter c id, _ => .closed c id ch got
  | .idle, .recv c res, no => .received c ⟨no, res⟩
  | .received c a, .lookup _ _, some ch => .found c a ch
  | st, _, _ => st

def Stage.id? : Stage → Option CommandID
  | .named _ id | .opened _ id _ | .added _ id _ | .sent _ id _ | .settled _ id _ _
  | .closed _ id _ _ => some id
  | _ => none

def Stage.chan? : Stage → Option ChanNo
  | .opened _ _ ch | .added _ _ ch | .sent _ _ ch | .settled _ _ ch _ | .closed _ _ ch _ => some ch
  | _ => none

def Stage.got? : Stage → Option Arrival
  | .settled _ _ _ got => got
  | .closed _ _ _ got => got
  | _ => none

def Job.body : Job → Act (Option (Except Err Bytes))
  | .call host op req => do return some (← callRaw host op req)
  | .serve c res => do
    Agentlink.serve c res
    return none

def linking : System Job Stage Call Answer (Option (Except Err Bytes)) Link (Option String) Event where
  body := Job.body
  first _ := .idle
  note := note
  perform := Link.perform
  other := Link.other

abbrev Links := Pool Job Stage Call Answer (Option (Except Err Bytes)) Link

/-- What a call has come to when it returns: nothing that it has registered is left, and a reply is
the one that it took. -/
def Returned (op : String) (st : Stage) (r : Except Err Bytes) : Prop :=
  (∃ c id ch a, st = .closed c id ch (some a) ∧ r = reply op a.res) ∨
    ((st.chan? = none ∨ ∃ c id ch, st = .closed c id ch none) ∧ (∀ payload, r ≠ .ok payload) ∧
      ∀ text, r ≠ .error (.agent op text))

def Job.Sees (j : Job) (st : Stage) : Call → Prop
  | .get _ => st = .idle
  | .newID => ∃ c, st = .picked c
  | .makeChan c id => st = .named c id
  | .addWaiter c id ch => st = .opened c id ch
  | .send c id _ _ => ∃ ch, st = .added c id ch
  | .select ch => ∃ c id, st = .sent c id ch
  | .removeWaiter c id => ∃ ch got, st = .settled c id ch got
  | .recv c res => st = .idle ∧ j = .serve c res
  | .lookup c id => ∃ a, st = .received c a ∧ a.res.id = id
  | .trySend ch a => ∃ c, st = .found c a ch

def correlating : System.Conduct Job Stage Call (Option (Except Err Bytes)) where
  allows := Job.Sees
  answers j st r :=
    match j, r with
    | .call _ op _, some r => Returned op st r
    | .call _ _ _, none => False
    | .serve _ _, r => r = none

theorem sendAndWait_follows (j : Job) (c : ConnNo) (id : CommandID) (ch : ChanNo) (op : String)
    (payload : Bytes) :
    (sendAndWait c id ch op payload).Follows j.Sees note
      (fun st r => ∃ got, st = .settled c id ch got ∧ Returned op (.closed c id ch got) r)
      (.added c id ch) := by
  refine ⟨⟨ch, rfl⟩, fun r => ?_⟩
  cases r with
  | error text => exact ⟨none, rfl, .inr ⟨.inr ⟨c, id, ch, rfl⟩, nofun, nofun⟩⟩
  | ok _ =>
    refine ⟨⟨c, id, rfl⟩, fun r => ?_⟩
    cases r with
    | error text => exact ⟨none, rfl, .inr ⟨.inr ⟨c, id, ch, rfl⟩, nofun, nofun⟩⟩
    | ok a => exact ⟨some a, rfl, .inl ⟨c, id, ch, a, rfl, rfl⟩⟩

theorem callRaw_follows (host : HostID) (op : String) (req : Except String Bytes) :
    (callRaw host op req).Follows (Job.call host op req).Sees note (Returned op) .idle := by
  refine ⟨rfl, fun c => ?_⟩
  cases c with
  | none => exact .inr ⟨.inl rfl, nofun, nofun⟩
  | some c =>
    cases req with
    | error text => exact .inr ⟨.inl rfl, nofun, nofun⟩
    | ok payload =>
      refine ⟨⟨c, rfl⟩, fun id => ⟨rfl, fun ch => ⟨rfl, fun _ => ?_⟩⟩⟩
      show ((sendAndWait c id ch op payload).bind fun r => (ask (.removeWaiter c id)).bind fun _ =>
        .done r).Follows (Job.call host op (.ok payload)).Sees note (Returned op) (.added c id ch)
      refine Prog.Follows.bind ((sendAndWait_follows _ c id ch op payload).mono ?_)
      rintro st r ⟨got, rfl, hr⟩
      exact ⟨⟨ch, got, rfl⟩, fun _ => hr⟩

theorem serve_follows (c : ConnNo) (res : Result) :
    (serve c res).Follows (Job.serve c res).Sees note (fun _ _ => True) .idle := by
  refine ⟨⟨rfl, rfl⟩, fun no => ⟨⟨⟨no, res⟩, rfl, rfl⟩, fun ch => ?_⟩⟩
  cases ch with
  | none => trivial
  | some ch => exact ⟨⟨c, rfl⟩, fun _ => trivial⟩

theorem body_follows : linking.Keeps correlating := by
  intro j
  cases j with
  | call host op req => exact Prog.Follows.bind ((callRaw_follows host op req).mono fun _ _ h => h)
  | serve c res => exact Prog.Follows.bind ((serve_follows c res).mono fun _ _ _ => rfl)

/-- What one call of a thread does: where it was, where it then is, and what becomes of the hub. -/
inductive Move (s : Link) : Stage → Stage → Link → Prop where
  | absent : Move s .idle .idle s
  | picked (c : ConnNo) : Move s .idle (.picked c) s
  | named (c : ConnNo) : Move s (.picked c) (.named c s.nextID) { s with nextID := s.nextID + 1 }
  | opened (c : ConnNo) (id : CommandID) : Move s (.named c id) (.opened c id s.chans.length)
      { s with chans := s.chans ++ [⟨c, id, none⟩] }
  | added (c : ConnNo) (id : CommandID) (ch : ChanNo) :
      Move s (.opened c id ch) (.added c id ch) (s.setWaiter c id (some ch))
  | sent (c : ConnNo) (id : CommandID) (ch : ChanNo) : Move s (.added c id ch) (.sent c id ch) s
  | unsent (c : ConnNo) (id : CommandID) (ch : ChanNo) :
      Move s (.added c id ch) (.settled c id ch none) s
  | ended (c : ConnNo) (id : CommandID) (ch : ChanNo) : Move s (.sent c id ch) (.settled c id ch none) s
  | took (c : ConnNo) (id : CommandID) (ch : ChanNo) (a : Arrival) :
      s.chans[ch]?.bind Chan.buffer = some a →
      Move s (.sent c id ch) (.settled c id ch (some a)) (s.setBuffer ch none)
  | closed (c : ConnNo) (id : CommandID) (ch : ChanNo) (got : Option Arrival) :
      Move s (.settled c id ch got) (.closed c id ch got) (s.setWaiter c id none)
  | received (c : ConnNo) (res : Result) : Move s .idle (.received c ⟨s.results.length, res⟩)
      { s with results := s.results ++ [(c, res)] }
  | unknown (c : ConnNo) (a : Arrival) : Move s (.received c a) (.received c a) s
  | found (c : ConnNo) (a : Arrival) (ch : ChanNo) : s.waiters c a.res.id = some ch →
      Move s (.received c a) (.found c a ch) s
  | dropped (c : ConnNo) (a : Arrival) (ch : ChanNo) : Move s (.found c a ch) (.found c a ch) s
  | put (c : ConnNo) (a : Arrival) (ch : ChanNo) :
      Move s (.found c a ch) (.found c a ch) (s.setBuffer ch (some a))

theorem turn_move {j : Job} {st : Stage} (hs : j.Sees st e) (o : Option String) :
    Move s st (note st e (s.perform o e).1) (s.perform o e).2 := by
  cases e with
  | get host =>
    obtain rfl : st = .idle := hs
    show Move s .idle (note .idle (.get host) (s.registry host)) s
    cases s.registry host with
    | none => exact .absent
    | some c => exact .picked c
  | newID =>
    obtain ⟨c, rfl⟩ := hs
    exact .named c
  | makeChan c id =>
    obtain rfl : st = .named c id := hs
    exact .opened c id
  | addWaiter c id ch =>
    obtain rfl : st = .opened c id ch := hs
    exact .added c id ch
  | send c id op payload =>
    obtain ⟨ch, rfl⟩ := hs
    cases o with
    | none => exact .sent c id ch
    | some text => exact .unsent c id ch
  | select ch =>
    obtain ⟨c, id, rfl⟩ := hs
    rcases perform_select s o ch with ⟨text, he⟩ | ⟨a, hb, he⟩
    · rw [he]
      exact .ended c id ch
    · rw [he]
      exact .took c id ch a hb
  | removeWaiter c id =>
    obtain ⟨ch, got, rfl⟩ := hs
    exact .closed c id ch got
  | recv c res =>
    obtain ⟨rfl, -⟩ := hs
    exact .received c res
  | lookup c id =>
    obtain ⟨a, rfl, rfl⟩ := hs
    show Move s (.received c a) (note (.received c a) (.lookup c a.res.id) (s.waiters c a.res.id)) s
    cases hw : s.waiters c a.res.id with
    | none => exact .unknown c a
    | some ch => exact .found c a ch hw
  | trySend ch a =>
    obtain ⟨c, rfl⟩ := hs
    rcases perform_trySend s o ch a with he | he
    · rw [he]
      exact .dropped c a ch
    · rw [he]
      exact .put c a ch

def Link.ChanFor (s : Link) (ch : ChanNo) (c : ConnNo) (id : CommandID) : Prop :=
  ∃ x, s.chans[ch]? = some x ∧ x.conn = c ∧ x.id = id

def Link.Arrived (s : Link) (c : ConnNo) (a : Arrival) : Prop := s.results[a.no]? = some (c, a.res)

/-- Commands are waited for with their own channels, and a channel holds a result for its command
that came in on its connection. -/
structure Link.Sound (s : Link) : Prop where
  waiters : ∀ c id ch, s.waiters c id = some ch → s.ChanFor ch c id
  buffers : ∀ x ∈ s.chans, ∀ a, x.buffer = some a → s.Arrived x.conn a ∧ a.res.id = x.id

def Stage.Told (s : Link) : Stage → Prop
  | .named _ id => id < s.nextID
  | .opened c id ch | .added c id ch | .sent c id ch => id < s.nextID ∧ s.ChanFor ch c id
  | .settled c id ch got => id < s.nextID ∧ s.ChanFor ch c id ∧
      ∀ a, got = some a → s.Arrived c a ∧ a.res.id = id
  | .closed c id ch got => id < s.nextID ∧ s.ChanFor ch c id ∧
      ∀ a, got = some a → s.Arrived c a ∧ a.res.id = id
  | .received c a => s.Arrived c a
  | .found c a ch => s.Arrived c a ∧ s.ChanFor ch c a.res.id
  | _ => True

def Stage.Gone (s : Link) : Stage → Prop
  | .closed c id _ _ => s.waiters c id = none
  | _ => True

structure Later (s s' : Link) : Prop where
  nextID : s.nextID ≤ s'.nextID
  chans : ∀ ch c id, s.ChanFor ch c id → s'.ChanFor ch c id
  results : ∀ c a, s.Arrived c a → s'.Arrived c a

section Steps

variable {s s' : Link} {st : Stage} {j : Job} {ch : ChanNo} {c : ConnNo}

theorem Later.of_same (hi : s'.nextID = s.nextID) (hc : s'.chans = s.chans)
    (hr : s'.results = s.results) : Later s s' := by
  refine ⟨Nat.le_of_eq hi.symm, fun ch c id h => ?_, fun c a h => ?_⟩
  · rw [Link.ChanFor, hc]
    exact h
  · rw [Link.Arrived, hr]
    exact h

theorem Later.told (h : Later s s') (hs : st.Told s) : st.Told s' := by
  have hg : ∀ {c id} {got : Option Arrival}, (∀ a, got = some a → s.Arrived c a ∧ a.res.id = id) →
      ∀ a, got = some a → s'.Arrived c a ∧ a.res.id = id := fun hal a ha =>
    ⟨h.results _ a (hal a ha).1, (hal a ha).2⟩
  have hl : ∀ {id}, id < s.nextID → id < s'.nextID := fun hi => Nat.lt_of_lt_of_le hi h.nextID
  cases st with
  | idle | picked c => trivial
  | named c id => exact hl hs
  | opened c id ch | added c id ch | sent c id ch => exact ⟨hl hs.1, h.chans _ _ _ hs.2⟩
  | settled c id ch got | closed c id ch got => exact ⟨hl hs.1, h.chans _ _ _ hs.2.1, hg hs.2.2⟩
  | received c a => exact h.results _ a hs
  | found c a ch => exact ⟨h.results _ a hs.1, h.chans _ _ _ hs.2⟩

theorem Stage.Told.id_lt (h : st.Told s) {id : CommandID} (hi : st.id? = some id) : id < s.nextID := by
  cases st with
  | named c i =>
    cases hi
    exact h
  | opened c i ch | added c i ch | sent c i ch | settled c i ch got | closed c i ch got =>
    cases hi
    exact h.1
  | idle | picked c | received c a | found c a ch => cases hi

theorem chanFor_setBuffer {id : CommandID} :
    (s.setBuffer ch b).ChanFor ch' c id ↔ s.ChanFor ch' c id := by
  simp only [Link.ChanFor, Link.setBuffer, List.getElem?_modify]
  by_cases hc : ch = ch'
  · subst hc
    cases s.chans[ch]? <;> simp
  · simp [hc]

theorem mem_setBuffer (h : x ∈ (s.setBuffer ch b).chans) :
    x ∈ s.chans ∨ ∃ y, s.chans[ch]? = some y ∧ x = { y with buffer := b } := by
  obtain ⟨i, hi⟩ := List.getElem?_of_mem h
  rw [Link.setBuffer, List.getElem?_modify] at hi
  split at hi
  · rename_i hc
    subst hc
    obtain ⟨y, hy, hx⟩ := Option.map_eq_some_iff.mp hi
    exact .inr ⟨y, hy, hx.symm⟩
  · have ho : s.chans[i]? = some x := by simpa using hi
    exact .inl (mem_of_getElem? ho)

theorem later_setBuffer (s : Link) (ch : ChanNo) (b : Option Arrival) : Later s (s.setBuffer ch b) :=
  ⟨Nat.le_refl _, fun _ _ _ h => chanFor_setBuffer.mpr h, fun _ _ h => h⟩

theorem later_makeChan (s : Link) (c : ConnNo) (id : CommandID) :
    Later s { s with chans := s.chans ++ [⟨c, id, none⟩] } := by
  refine ⟨Nat.le_refl _, ?_, fun _ _ h => h⟩
  rintro ch c' id' ⟨x, hx, hr⟩
  exact ⟨x, by rw [List.getElem?_append_left (List.getElem?_eq_some_iff.mp hx).1, hx], hr⟩

theorem later_recv (s : Link) (c : ConnNo) (res : Result) :
    Later s { s with results := s.results ++ [(c, res)] } := by
  refine ⟨Nat.le_refl _, fun _ _ _ h => h, fun c' a h => ?_⟩
  rw [Link.Arrived] at h ⊢
  rw [List.getElem?_append_left (List.getElem?_eq_some_iff.mp h).1, h]

theorem Move.later (h : Move s st st' s') : Later s s' := by
  cases h with
  | named c => exact ⟨Nat.le_succ _, fun _ _ _ h => h, fun _ _ h => h⟩
  | opened c id => exact later_makeChan s c id
  | took c id ch a _ => exact later_setBuffer s ch none
  | received c res => exact later_recv s c res
  | put c a ch => exact later_setBuffer s ch (some a)
  | _ => exact .of_same rfl rfl rfl

theorem Move.waiters (h : Move s st st' s') {id : CommandID} (hn : s.waiters c id = none)
    (hi : st.id? ≠ some id) : s'.waiters c id = none := by
  cases h with
  | added c' id' ch =>
    show (if c = c' ∧ id = id' then some ch else s.waiters c id) = none
    rw [if_neg, hn]
    rintro ⟨-, rfl⟩
    exact hi rfl
  | closed c' id' ch got =>
    show (if c = c' ∧ id = id' then none else s.waiters c id) = none
    rw [hn, ite_self]
  | _ => exact hn

theorem Link.Sound.setBuffer (h : s.Sound)
    (hb : ∀ x a, s.chans[ch]? = some x → b = some a → s.Arrived x.conn a ∧ a.res.id = x.id) :
    (s.setBuffer ch b).Sound := by
  refine ⟨fun c id ch' hw => chanFor_setBuffer.mpr (h.waiters c id ch' hw), fun x hx a ha => ?_⟩
  rcases mem_setBuffer hx with ho | ⟨y, hy, rfl⟩
  · exact h.buffers x ho a ha
  · exact hb y a hy ha

theorem Link.Sound.setWaiter (h : s.Sound) {id : CommandID}
    (hw : ∀ ch, w = some ch → s.ChanFor ch c id) : (s.setWaiter c id w).Sound := by
  refine ⟨fun c' id' ch hc => ?_, h.buffers⟩
  simp only [Link.setWaiter] at hc
  split at hc
  · rename_i hs
    obtain ⟨rfl, rfl⟩ := hs
    exact hw ch hc
  · exact h.waiters c' id' ch hc

theorem Link.Sound.later (h : s.Sound) (hl : Later s s') (hw : s'.waiters = s.waiters)
    (hc : ∀ x ∈ s'.chans, x ∈ s.chans ∨ x.buffer = none) : s'.Sound := by
  refine ⟨fun c id ch hch => hl.chans _ _ _ (h.waiters c id ch (hw ▸ hch)), fun x hx a ha => ?_⟩
  rcases hc x hx with ho | hn
  · exact ⟨hl.results _ a (h.buffers x ho a ha).1, (h.buffers x ho a ha).2⟩
  · rw [hn] at ha
    cases ha

theorem Move.sound (h : Move s st st' s') (hs : s.Sound) (hst : st.Told s) : s'.Sound := by
  cases h with
  | named c => exact hs.later (Move.named c).later rfl fun x hx => .inl hx
  | opened c id =>
    refine hs.later (later_makeChan s c id) rfl fun x hx => ?_
    rcases mem_append.mp hx with hx | hx
    · exact .inl hx
    · rw [mem_singleton.mp hx]
      exact .inr rfl
  | added c id ch => exact hs.setWaiter fun _ he => Option.some.inj he ▸ hst.2
  | took c id ch a _ => exact hs.setBuffer nofun
  | closed c id ch got => exact hs.setWaiter nofun
  | received c res => exact hs.later (later_recv s c res) rfl fun x hx => .inl hx
  | put c a ch =>
    obtain ⟨ha, y, hy, hc, hi⟩ := hst
    refine hs.setBuffer fun x a' hx ha' => ?_
    obtain rfl : y = x := Option.some.inj (hy.symm.trans hx)
    cases ha'
    exact ⟨hc ▸ ha, hi.symm⟩
  | _ => exact hs

theorem Move.told (h : Move s st st' s') (hs : s.Sound) (hst : st.Told s) : st'.Told s' := by
  have hl := h.later
  cases h with
  | absent | picked c => trivial
  | named c => exact Nat.lt_succ_self _
  | opened c id => exact ⟨hst, ⟨c, id, none⟩, List.getElem?_concat_length, rfl, rfl⟩
  | added c id ch | sent c id ch => exact hst
  | unsent c id ch | ended c id ch => exact ⟨hst.1, hst.2, nofun⟩
  | took c id ch a hb =>
    obtain ⟨hi, x, hx, rfl, rfl⟩ := hst
    refine ⟨hi, hl.chans _ _ _ ⟨x, hx, rfl, rfl⟩, fun a' ha' => ?_⟩
    cases ha'
    rw [hx, Option.bind_some] at hb
    exact hs.buffers x (mem_of_getElem? hx) a hb
  | closed c id ch got => exact hst
  | received c res => exact List.getElem?_concat_length
  | unknown c a | dropped c a ch => exact hst
  | found c a ch hw => exact ⟨hst, hs.waiters _ _ _ hw⟩
  | put c a ch => exact hl.told hst

theorem Move.gone (h : Move s st st' s') : st'.Gone s' := by
  cases h with
  | closed c id ch got => exact if_pos ⟨rfl, rfl⟩
  | _ => trivial

theorem Move.id (h : Move s st st' s') : st'.id? = st.id? ∨ st'.id? = some s.nextID := by
  cases h with
  | named c => exact .inr rfl
  | _ => exact .inl rfl

end Steps

section Threads

variable {p p' : Links} {t : Thread Job Stage Call Answer (Option (Except Err Bytes))}

def Distinct (_ : Job) (st : Stage) (_ : Job) (st' : Stage) : Prop :=
  ∀ id, st.id? = some id → st'.id? ≠ some id

structure Linked (p : Links) : Prop where
  holds : System.Holds linking correlating Link.Sound (fun _ _ st s => st.Told s ∧ st.Gone s) p
  apart : System.Apart Distinct p

theorem Linked.start : Linked ⟨Link.init, []⟩ := by
  refine ⟨.start ⟨nofun, fun x hx => absurd hx not_mem_nil⟩, fun i i' t t' _ ht => ?_⟩
  cases ht

theorem Linked.holds_step (h : Linked p) (hs : linking.step p l = some p') :
    System.Holds linking correlating Link.Sound (fun _ _ st s => st.Told s ∧ st.Gone s) p' := by
  refine System.Holds.step h.holds body_follows hs ?_ ?_ ?_
  · intro j _
    exact ⟨trivial, trivial⟩
  · intro i o j st e k _ hi hse hst
    have hm := turn_move (s := p.shared) hse o
    refine ⟨hm.sound h.holds.shared hst.1, ⟨hm.told h.holds.shared hst.1, hm.gone⟩, ?_⟩
    intro i' t hn ht hto
    refine ⟨hm.later.told hto.1, ?_⟩
    have hg := hto.2
    have ha := h.apart i' i t _ hn ht hi
    generalize t.stage = st' at hg ha ⊢
    cases st' with
    | closed c id ch got => exact hm.waiters hg (ha id rfl)
    | _ => trivial
  · intro w s _ hw
    have hsa : s.waiters = p.shared.waiters ∧ s.chans = p.shared.chans ∧
        s.results = p.shared.results ∧ s.nextID = p.shared.nextID := by
      cases w <;> cases hw <;> exact ⟨rfl, rfl, rfl, rfl⟩
    obtain ⟨hwa, hc, hr, hid⟩ := hsa
    have hl : Later p.shared s := .of_same hid hc hr
    refine ⟨h.holds.shared.later hl hwa fun x hx => .inl (hc ▸ hx), ?_⟩
    intro i t ht hto
    refine ⟨hl.told hto.1, ?_⟩
    have hg := hto.2
    generalize t.stage = st at hg ⊢
    cases st with
    | closed c id ch got =>
      show s.waiters c id = none
      rw [hwa]
      exact hg
    | _ => trivial

theorem Linked.apart_step (h : Linked p) (hs : linking.step p l = some p') :
    System.Apart Distinct p' := by
  refine h.apart.step ?_ hs ?_ ?_
  · intro j st j' st' hd id hid hi'
    exact hd id hi' hid
  · intro j _ t _ id hid
    cases hid
  intro i o j st e k _ hi i' t hn ht id hid hi'
  have hse := (h.holds.keeps _ (mem_of_getElem? hi)).1
  rcases (turn_move (s := p.shared) hse o).id with hsa | hnew
  · exact h.apart i i' _ t (Ne.symm hn) hi ht id (hsa ▸ hid) hi'
  have hl := (h.holds.threads i' t ht).1.id_lt hi'
  rw [show (linking.note st e (linking.perform o e p.shared).1).id? = some p.shared.nextID from
    hnew] at hid
  cases hid
  exact Nat.lt_irrefl _ hl

def Call.Quick : Call → Prop
  | .send _ _ _ _ => False
  | .select _ => False
  | _ => True

/-- A delivery is through in three calls, none of which waits for anybody. -/
def Brisk (p : Links) : Prop :=
  ∀ t ∈ p.threads, ∀ c res, t.job = .serve c res → t.prog.Within Call.Quick 3

theorem serve_within (c : ConnNo) (res : Result) : (Job.serve c res).body.Within Call.Quick 3 := by
  refine ⟨trivial, fun no => ⟨trivial, fun ch => ?_⟩⟩
  cases ch with
  | none => trivial
  | some ch => exact ⟨trivial, fun _ => trivial⟩

theorem Brisk.step (h : Brisk p) (hs : linking.step p l = some p') : Brisk p' := by
  intro t ht c res hj
  obtain ⟨i, hi⟩ := mem_iff_getElem?.mp ht
  rcases System.step_thread hs hi with ho | ⟨j, -, -, rfl⟩ | ⟨o, j, st, e, k, -, ho, rfl⟩
  · exact h t (mem_of_getElem? ho) c res hj
  · obtain rfl : j = .serve c res := hj
    exact serve_within c res
  · have hw := h _ (mem_of_getElem? ho) c res hj
    exact (hw.2 _).more

def Over (t : Thread Job Stage Call Answer (Option (Except Err Bytes))) (op : String)
    (r : Except Err Bytes) : Prop :=
  (∃ host req, t.job = .call host op req) ∧ t.prog.result? = some (some r)

theorem Linked.returned (h : Linked p) (ht : t ∈ p.threads) {op : String} (ho : Over t op r) :
    Returned op t.stage r := by
  obtain ⟨⟨host, req, hj⟩, hr⟩ := ho
  have hk := h.holds.keeps t ht
  rw [Prog.eq_done_of_result? hr, hj] at hk
  exact hk

theorem Linked.told (h : Linked p) (ht : t ∈ p.threads) :
    t.stage.Told p.shared ∧ t.stage.Gone p.shared := by
  obtain ⟨i, hi⟩ := mem_iff_getElem?.mp ht
  exact h.holds.threads i t hi

theorem Stage.Told.got {st : Stage} (h : st.Told s) (hg : st.got? = some a) :
    st.id? = some a.res.id ∧ ∃ c, s.Arrived c a := by
  cases st with
  | settled c id ch got | closed c id ch got =>
    exact ⟨congrArg some (h.2.2 a hg).2.symm, c, (h.2.2 a hg).1⟩
  | _ => cases hg

theorem Linked.unregistered (h : Linked p) {id : CommandID} {got : Option Arrival}
    (ht : (Stage.closed c id ch got).Told p.shared) (hg : (Stage.closed c id ch got).Gone p.shared)
    (c' : ConnNo) (id' : CommandID) : p.shared.waiters c' id' ≠ some ch := by
  intro hw
  obtain ⟨x, hx, rfl, rfl⟩ := ht.2.1
  obtain ⟨y, hy, rfl, rfl⟩ := h.holds.shared.waiters _ _ _ hw
  obtain rfl : y = x := Option.some.inj (hy.symm.trans hx)
  rw [show p.shared.waiters y.conn y.id = none from hg] at hw
  cases hw

end Threads

/-- A reply is that of a result for the call's own command that came in on the connection that the
command went out on. -/
def Correlated (p : Links) : Prop :=
  ∀ t ∈ p.threads, ∀ op r, Over t op r →
    ((∃ payload, r = .ok payload) ∨ ∃ text, r = .error (.agent op text)) →
      ∃ c id ch a, t.stage = .closed c id ch (some a) ∧ r = reply op a.res ∧ a.res.id = id ∧
        p.shared.results[a.no]? = some (c, a.res)

def TakenOnce (p : Links) : Prop :=
  ∀ (i i' : Nat) (t t' : Thread Job Stage Call Answer (Option (Except Err Bytes))) (a a' : Arrival),
    p.threads[i]? = some t → p.threads[i']? = some t' → t.stage.got? = some a →
      t'.stage.got? = some a' → a.no = a'.no → i = i'

def Tidy (p : Links) : Prop :=
  ∀ t ∈ p.threads, ∀ op r, Over t op r → ∀ ch, t.stage.chan? = some ch →
    ∀ c id, p.shared.waiters c id ≠ some ch

/-- Whatever the order of calls, results, cancellations and reconnects. -/
theorem replies_correlated {p : Links}
    (h : Reaches linking.step (fun _ _ _ => True) ⟨Link.init, []⟩ p) :
    Correlated p ∧ TakenOnce p ∧ Brisk p ∧ Tidy p := by
  have hlinked : Linked p := h.invariant (I := Linked) .start fun _ _ _ hp hs _ =>
    ⟨hp.holds_step hs, hp.apart_step hs⟩
  have hbrisk : Brisk p := h.invariant (I := Brisk) (fun t ht => absurd ht not_mem_nil)
    fun _ _ _ hp hs _ => hp.step hs
  refine ⟨?_, ?_, hbrisk, ?_⟩
  · intro t ht op r hover hreply
    rcases hlinked.returned ht hover with ⟨c, id, ch, a, hst, hr⟩ | ⟨-, hok, hagent⟩
    · have htold := (hlinked.told ht).1
      rw [hst] at htold
      obtain ⟨harrived, hid⟩ := htold.2.2 a rfl
      exact ⟨c, id, ch, a, hst, hr, hid, harrived⟩
    rcases hreply with ⟨payload, hr⟩ | ⟨text, hr⟩
    · exact absurd hr (hok payload)
    · exact absurd hr (hagent text)
  · intro i i' t t' a a' hi hi' hgot hgot' hno
    obtain ⟨hid, c, harrived⟩ := (hlinked.holds.threads i t hi).1.got hgot
    obtain ⟨hid', c', harrived'⟩ := (hlinked.holds.threads i' t' hi').1.got hgot'
    rw [Link.Arrived, hno, show p.shared.results[a'.no]? = _ from harrived'] at harrived
    have hres : a'.res = a.res := congrArg Prod.snd (Option.some.inj harrived)
    by_contra hne
    exact hlinked.apart i i' t t' hne hi hi' a.res.id hid (hres ▸ hid')
  · intro t ht op r hover ch hch c id
    obtain ⟨htold, hgone⟩ := hlinked.told ht
    rcases hlinked.returned ht hover with ⟨c0, id0, ch0, a, hst, -⟩ | ⟨hst | ⟨c0, id0, ch0, hst⟩, -⟩
    · rw [hst] at htold hgone hch
      cases hch
      exact hlinked.unregistered htold hgone c id
    · rw [hst] at hch
      cases hch
    rw [hst] at htold hgone hch
    cases hch
    exact hlinked.unregistered htold hgone c id

def answeredTwice : List (Turn Job (Option String) Event) :=
  [.other (.connect 1), .start (.call 1 "status" (.ok []))] ++ List.replicate 5 (.turn 0 none) ++
    [.start (.serve 0 ⟨0, "", [7]⟩)] ++ List.replicate 3 (.turn 1 none) ++
    [.start (.serve 0 ⟨0, "", [8]⟩)] ++ List.replicate 3 (.turn 2 none) ++
    List.replicate 2 (.turn 0 none)

theorem first_answer_taken :
    ∃ p : Links, Reaches linking.step (fun _ _ _ => True) ⟨Link.init, []⟩ p ∧
      p.threads[0]?.bind (·.prog.result?) = some (some (.ok [7])) ∧
      Correlated p ∧ TakenOnce p ∧ Brisk p ∧ Tidy p := by
  exact Reaches.exists_then answeredTwice (by decide) fun _ hp _ => replies_correlated hp

end Craftling.Agentlink
