import Craftling.Effects.Records
import Craftling.Guest.Whitelist

namespace Craftling.Minecraft
open Effects List

namespace Rcon

inductive RconErr where
  | eof
  | badLength (n : Nat)
  | authReply (e : RconErr)
  | authFailed
  | execReply (cmd : Bytes) (e : RconErr)
deriving Repr, DecidableEq

def typeAuth : Nat := 3
def typeExec : Nat := 2
def typeRespVal : Nat := 0
def authFailedID : Nat := 2 ^ 32 - 1
def authID : Nat := 1
def execID : Nat := 2
def maxBody : Nat := 4096

def writeRCON (n typ : Nat) (body : Bytes) : Bytes :=
  record [(4, 4 + 4 + body.length + 2), (4, n), (4, typ)] ++ (body ++ [0, 0])

structure Packet where
  num : Nat
  typ : Nat
  body : Bytes
deriving Repr, DecidableEq

def readRCON (r : Bytes) : Except RconErr (Packet × Bytes) :=
  match readBytes 4 r with
  | none => .error .eof
  | some (len, r) =>
    let n := leNat len
    if n < 10 ∨ maxBody + 10 < n then .error (.badLength n)
    else match readBytes n r with
      | none => .error .eof
      | some (payload, r) =>
        let b := payload.drop 8
        .ok (⟨leNat (payload.take 4), leNat ((payload.drop 4).take 4), b.take (b.length - 2)⟩, r)

/-- A server answers a request, given as the bytes of its packet: authentication with a packet of some
number, and a command with the fragments of a reply. -/
structure Peer (σ : Type) where
  auth : Bytes → Nat
  start : σ
  answer : σ → Bytes → List Bytes × σ

def authRequest : Bytes := writeRCON authID typeAuth [49, 50, 51, 52]

def sent (frags : List Bytes) : Bytes := frags.flatMap (writeRCON execID typeRespVal)

section Exchange

variable {σ : Type}

/-- The loop over the commands. What the server has sent and no read has taken stays in the buffer
of the reader. -/
def execLoop (v : Peer σ) : σ → Bytes → List Bytes → Except RconErr (List Bytes)
  | _, _, [] => .ok []
  | s, buffered, c :: cs =>
    let (frags, s) := v.answer s (writeRCON execID typeExec c)
    match readRCON (buffered ++ sent frags) with
    | .error e => .error (.execReply c e)
    | .ok (p, buffered) => (execLoop v s buffered cs).map (p.body :: ·)

/-- The exchange over a connection that holds; any other returns an error. -/
def rconExec (v : Peer σ) (cmds : List Bytes) : Except RconErr (List Bytes) :=
  match readRCON (writeRCON (v.auth authRequest) typeExec []) with
  | .error e => .error (.authReply e)
  | .ok (p, buffered) =>
    if p.num = authFailedID then .error .authFailed else execLoop v v.start buffered cmds

def whitelistList : Bytes :=
  ['w', 'h', 'i', 't', 'e', 'l', 'i', 's', 't', ' ', 'l', 'i', 's', 't'].map (UInt8.ofNat ·.toNat)

def whitelistDiff (order : IterOrder) (decode : Bytes → Text) (v : Peer σ) (desired : List Text) :
    Except RconErr (List Text) :=
  (rconExec v [whitelistList]).map fun bodies =>
    whitelistSyncCommands order (match bodies with
      | [] => []
      | body :: _ => parseWhitelist (decode body)) desired

def answers (v : Peer σ) : σ → List Bytes → List (List Bytes)
  | _, [] => []
  | s, c :: cs =>
    let (frags, s) := v.answer s (writeRCON execID typeExec c)
    frags :: answers v s cs

/-- A server that lets the client in, and answers each command with one fragment or more. -/
structure Peer.Answers (v : Peer σ) (cmds : List Bytes) : Prop where
  auth : v.auth authRequest < authFailedID
  some : ∀ frags ∈ answers v v.start cmds, frags ≠ []
  short : ∀ frags ∈ answers v v.start cmds, ∀ f ∈ frags, f.length ≤ maxBody

theorem readRCON_append (hn : n < 2 ^ 32) (ht : typ < 2 ^ 32) (hb : body.length ≤ maxBody)
    (rest : Bytes) : readRCON (writeRCON n typ body ++ rest) = .ok (⟨n, typ, body⟩, rest) := by
  have hb' : body.length ≤ 4096 := hb
  have hl : leNat (leBytes 4 (4 + 4 + body.length + 2)) = 4 + 4 + body.length + 2 :=
    leNat_leBytes (by omega)
  have hw : writeRCON n typ body ++ rest = leBytes 4 (4 + 4 + body.length + 2) ++
      ((leBytes 4 n ++ (leBytes 4 typ ++ (body ++ [0, 0]))) ++ rest) := by
    simp [writeRCON, record]
  have hp : (leBytes 4 n ++ (leBytes 4 typ ++ (body ++ [0, 0]))).length =
      4 + 4 + body.length + 2 := by
    simp only [length_append, length_leBytes, length_cons, length_nil]
    omega
  have hd : (leBytes 4 n ++ (leBytes 4 typ ++ (body ++ [0, 0]))).drop 8 = body ++ [0, 0] := by
    rw [← append_assoc]
    exact drop_left' (by simp)
  rw [hw, readRCON, readBytes_append (length_leBytes ..)]
  simp only [hl]
  rw [if_neg (by simp only [maxBody]; omega), readBytes_append hp]
  simp only [hd, take_left' (length_leBytes 4 n), drop_left' (length_leBytes 4 n),
    take_left' (length_leBytes 4 typ), leNat_leBytes (show n < 256 ^ 4 by omega),
    leNat_leBytes (show typ < 256 ^ 4 by omega)]
  rw [length_append, show [(0 : UInt8), 0].length = 2 from rfl, Nat.add_sub_cancel, take_left]

theorem execLoop_eq (hs : ∀ frags ∈ answers v s cmds, frags ≠ [])
    (hl : ∀ frags ∈ answers v s cmds, ∀ f ∈ frags, f.length ≤ maxBody)
    (hq : ∀ f ∈ queue, f.length ≤ maxBody) :
    execLoop v s (sent queue) cmds =
      .ok ((queue ++ (answers v s cmds).flatten).take cmds.length) := by
  induction cmds generalizing s queue with
  | nil => simp [execLoop]
  | cons c cmds ih =>
    have hf := hs _ (.head _)
    have hlf := hl _ (.head _)
    have hs' := fun frags hm => hs frags (.tail _ hm)
    have hl' := fun frags hm => hl frags (.tail _ hm)
    obtain ⟨p, ps, hp⟩ := exists_cons_of_ne_nil
      (show queue ++ (v.answer s (writeRCON execID typeExec c)).1 ≠ [] by simp [hf])
    have hall : ∀ f ∈ p :: ps, f.length ≤ maxBody := by
      intro f hm
      rw [← hp] at hm
      exact (mem_append.mp hm).elim (hq f) (hlf f)
    have hr : readRCON (sent queue ++ sent (v.answer s (writeRCON execID typeExec c)).1) =
        .ok (⟨execID, typeRespVal, p⟩, sent ps) := by
      rw [sent, sent, ← flatMap_append, hp, flatMap_cons]
      exact readRCON_append (by decide) (by decide) (hall p (.head _)) _
    rw [execLoop, answers]
    simp only [hr]
    rw [ih hs' hl' fun f hm => hall f (.tail _ hm), flatten_cons,
      ← append_assoc, hp, cons_append, length_cons, take_succ_cons]
    rfl

theorem rconExec_eq (h : v.Answers cmds) :
    rconExec v cmds = .ok ((answers v v.start cmds).flatten.take cmds.length) := by
  have ha := h.auth
  have hr : readRCON (writeRCON (v.auth authRequest) typeExec [] ++ []) =
      .ok (⟨v.auth authRequest, typeExec, []⟩, []) :=
    readRCON_append (Nat.lt_trans ha (by decide)) (by decide) (Nat.zero_le _) []
  rw [append_nil] at hr
  have hx : execLoop v v.start (sent []) cmds = .ok (([] ++ _).take _) :=
    execLoop_eq h.some h.short fun _ hm => absurd hm not_mem_nil
  rw [rconExec, hr]
  simp only
  rw [if_neg (Nat.ne_of_lt ha)]
  exact hx

/-- Only empty fragments follow the first of a reply, and once there are any, all later replies are
empty. -/
def InStep : List (List Bytes) → Prop
  | [] => True
  | frags :: rest => (∀ f ∈ frags.tail, f = []) ∧
      (frags.tail ≠ [] → ∀ later ∈ rest, later.flatten = []) ∧ (frags.tail = [] → InStep rest)

theorem take_flatten_behind {replies : List (List Bytes)} (hq : queue ≠ [])
    (he : ∀ f ∈ queue, f = []) (hs : ∀ frags ∈ replies, frags ≠ []) :
    (queue ++ replies.flatten).take replies.length = replies.map List.flatten ↔
      ∀ frags ∈ replies, frags.flatten = [] := by
  induction replies generalizing queue with
  | nil => simp
  | cons frags replies ih =>
    obtain ⟨f, queue, rfl⟩ := exists_cons_of_ne_nil hq
    have hf := he f (.head _)
    subst hf
    have hn : queue ++ frags ≠ [] := by simp [hs frags (.head _)]
    have hi := fun hz => ih hn hz fun g hm => hs g (.tail _ hm)
    rw [flatten_cons, cons_append, ← append_assoc, length_cons,
      take_succ_cons, map_cons, List.cons.injEq, forall_mem_cons]
    have hz : frags.flatten = [] → ∀ g ∈ queue ++ frags, g = [] := by
      intro hz g hm
      exact (mem_append.mp hm).elim (fun hg => he g (.tail _ hg)) (flatten_eq_nil_iff.mp hz g)
    constructor
    · rintro ⟨hx, hy⟩
      exact ⟨hx.symm, (hi (hz hx.symm)).mp hy⟩
    · rintro ⟨hx, hy⟩
      exact ⟨hx.symm, (hi (hz hx)).mpr hy⟩

theorem take_flatten_iff (hs : ∀ frags ∈ replies, frags ≠ []) :
    replies.flatten.take replies.length = replies.map List.flatten ↔ InStep replies := by
  induction replies with
  | nil => simp [InStep]
  | cons frags replies ih =>
    have hs' := fun g hm => hs g (.tail _ hm)
    obtain ⟨f, fs, rfl⟩ := exists_cons_of_ne_nil (hs frags (.head _))
    have hw : f = (f :: fs).flatten ↔ ∀ g ∈ fs, g = [] := by
      rw [flatten_cons, self_eq_append_right, flatten_eq_nil_iff]
    rw [flatten_cons, cons_append, length_cons, take_succ_cons, map_cons,
      List.cons.injEq, hw, InStep, tail_cons]
    refine and_congr_right fun he => ?_
    by_cases hf : fs = []
    · subst hf
      simpa using ih hs'
    · simpa [hf] using take_flatten_behind hf he hs'

theorem length_answers (v : Peer σ) (s : σ) (cmds : List Bytes) :
    (answers v s cmds).length = cmds.length := by
  induction cmds generalizing s with
  | nil => rfl
  | cons c cmds ih => exact congrArg (· + 1) (ih _)

theorem InStep.of_whole (h : ∀ frags ∈ replies, ∃ f, frags = [f]) : InStep replies := by
  induction replies with
  | nil => trivial
  | cons frags replies ih =>
    obtain ⟨f, rfl⟩ := h _ (.head _)
    exact ⟨by simp, by simp, fun _ => ih fun g hm => h g (.tail _ hm)⟩

/-- Every command is given its own whole reply exactly if the replies keep in step, which they do if
each is one packet. The whitelist is then compared with all of the live one. -/
theorem rcon_replies_iff {v : Peer σ} (h : v.Answers cmds) :
    (rconExec v cmds = .ok ((answers v v.start cmds).map List.flatten) ↔
        InStep (answers v v.start cmds)) ∧
      ((∀ frags ∈ answers v v.start cmds, ∃ f, frags = [f]) → InStep (answers v v.start cmds)) ∧
      ∀ order decode desired reply, cmds = [whitelistList] →
        answers v v.start cmds = [[reply]] → whitelistDiff order decode v desired =
          .ok (whitelistSyncCommands order (parseWhitelist (decode reply)) desired) := by
  refine ⟨?_, .of_whole, ?_⟩
  · rw [rconExec_eq h, Except.ok.injEq, ← length_answers v v.start cmds]
    exact take_flatten_iff h.some
  · intro order decode desired reply hc ha
    subst hc
    rw [whitelistDiff, rconExec_eq h, ha]
    rfl

def constant (frags : List Bytes) : Peer Unit := ⟨fun _ => 1, (), fun _ _ => (frags, ())⟩

theorem one_packet_replies :
    InStep [[[104, 105]], [[104, 105]]] ∧
      rconExec (constant [[104, 105]]) [[1], [2]] = .ok [[104, 105], [104, 105]] := by
  have h : (constant [[104, 105]]).Answers [[1], [2]] := ⟨by decide, by decide, by decide⟩
  obtain ⟨hiff, hwhole, -⟩ := rcon_replies_iff h
  have hs := hwhole fun frags hm => ⟨[104, 105], by simpa [answers, constant] using hm⟩
  exact ⟨hs, hiff.mpr hs⟩

/-- A reply in two packets: the first command is given half of it, the second the other half. -/
theorem split_reply_shifted :
    answers (constant [[104], [105]]) () [[1], [2]] = [[[104], [105]], [[104], [105]]] ∧
      rconExec (constant [[104], [105]]) [[1], [2]] = .ok [[104], [105]] := by
  decide

end Exchange

end Rcon

end Craftling.Minecraft
