import Craftling.Control.Requests

namespace Craftling.Api
open Effects List
open Control hiding Stmt Response Call Answer

def quotaUnlimited : Nat := 0

structure UserQuota where
  maxServers : Nat
  maxCPUs : Nat
  maxMemoryMB : Nat
  deriving DecidableEq

structure QuotaUsage where
  servers : Nat
  cpus : Nat
  memoryMB : Nat
  deriving DecidableEq

/-- Whether one more server stays within the quota, and if not, which limit it breaks. -/
def UserQuota.allows (q : UserQuota) (u : QuotaUsage) (addCPUs addMemoryMB : Nat) :
    Bool × String :=
  if q.maxServers ≠ quotaUnlimited && u.servers + 1 > q.maxServers then
    (false, "server count quota exceeded")
  else if q.maxCPUs ≠ quotaUnlimited && u.cpus + addCPUs > q.maxCPUs then
    (false, "cpu quota exceeded")
  else if q.maxMemoryMB ≠ quotaUnlimited && u.memoryMB + addMemoryMB > q.maxMemoryMB then
    (false, "memory quota exceeded")
  else (true, "")

structure UserQuota.Covers (q : UserQuota) (u : QuotaUsage) : Prop where
  servers : q.maxServers = quotaUnlimited ∨ u.servers ≤ q.maxServers
  cpus : q.maxCPUs = quotaUnlimited ∨ u.cpus ≤ q.maxCPUs
  memoryMB : q.maxMemoryMB = quotaUnlimited ∨ u.memoryMB ≤ q.maxMemoryMB

def QuotaUsage.plus (u : QuotaUsage) (addCPUs addMemoryMB : Nat) : QuotaUsage :=
  ⟨u.servers + 1, u.cpus + addCPUs, u.memoryMB + addMemoryMB⟩

def QuotaUsage.atMost (u v : QuotaUsage) : Prop :=
  u.servers ≤ v.servers ∧ u.cpus ≤ v.cpus ∧ u.memoryMB ≤ v.memoryMB

instance (u v : QuotaUsage) : Decidable (u.atMost v) := by
  unfold QuotaUsage.atMost
  infer_instance

instance (q : UserQuota) (u : QuotaUsage) : Decidable (q.Covers u) :=
  decidable_of_iff ((q.maxServers = quotaUnlimited ∨ u.servers ≤ q.maxServers) ∧
      (q.maxCPUs = quotaUnlimited ∨ u.cpus ≤ q.maxCPUs) ∧
      (q.maxMemoryMB = quotaUnlimited ∨ u.memoryMB ≤ q.maxMemoryMB))
    ⟨fun h => ⟨h.1, h.2.1, h.2.2⟩, fun h => ⟨h.1, h.2, h.3⟩⟩

variable {e : Control.Call} {u : QuotaUsage} {id : ServerID} {q : UserQuota}

theorem UserQuota.Covers.of_atMost (h : q.Covers v) (hl : u.atMost v) : q.Covers u := by
  obtain ⟨hs, hc, hm⟩ := hl
  exact ⟨h.servers.imp_right hs.trans, h.cpus.imp_right hc.trans, h.memoryMB.imp_right hm.trans⟩

theorem UserQuota.allows_iff (q : UserQuota) (u : QuotaUsage) (cpus memMB : Nat) :
    (q.allows u cpus memMB).1 = true ↔ q.Covers (u.plus cpus memMB) := by
  constructor
  · intro h
    unfold UserQuota.allows at h
    split at h
    · cases h
    split at h
    · cases h
    split at h
    · cases h
    rename_i hs hc hm
    simp only [Bool.and_eq_true, decide_eq_true_eq, not_and, Nat.not_lt, gt_iff_lt] at hs hc hm
    exact ⟨or_iff_not_imp_left.mpr hs, or_iff_not_imp_left.mpr hc, or_iff_not_imp_left.mpr hm⟩
  · intro h
    have hs := or_iff_not_imp_left.mp h.servers
    have hc := or_iff_not_imp_left.mp h.cpus
    have hm := or_iff_not_imp_left.mp h.memoryMB
    simp only [QuotaUsage.plus] at hs hc hm
    unfold UserQuota.allows
    rw [if_neg, if_neg, if_neg] <;> simpa

def liveOf (owner : UserID) (s : GameServer) : Bool := s.ownerID = owner && !s.deleted

def ownerUsage (rows : List GameServer) (owner : UserID) : QuotaUsage :=
  let mine := rows.filter (liveOf owner)
  ⟨mine.length, (mine.map (·.cpus)).sum, (mine.map (·.memoryMB)).sum⟩

/-- An update that leaves the owner and the size of a server alone, and brings no server
back. -/
structure Shrinks (g : GameServer → GameServer) : Prop where
  owner : ∀ s, (g s).ownerID = s.ownerID
  cpus : ∀ s, (g s).cpus = s.cpus
  memoryMB : ∀ s, (g s).memoryMB = s.memoryMB
  deleted : ∀ s, s.deleted = true → (g s).deleted = true

theorem Shrinks.live (hg : Shrinks g) {owner : UserID} (h : liveOf owner (g s) = true) :
    liveOf owner s = true := by
  simp only [liveOf, hg.owner, Bool.and_eq_true, Bool.not_eq_true', decide_eq_true_eq] at h ⊢
  refine ⟨h.1, ?_⟩
  cases hs : s.deleted with
  | false => rfl
  | true => rw [hg.deleted s hs] at h; exact h.2

theorem ownerUsage_cons (s : GameServer) (rows : List GameServer) (owner : UserID) :
    ownerUsage (s :: rows) owner =
      if liveOf owner s then (ownerUsage rows owner).plus s.cpus s.memoryMB
      else ownerUsage rows owner := by
  by_cases hl : liveOf owner s = true
  · simp [ownerUsage, QuotaUsage.plus, hl, Nat.add_comm]
  · simp [ownerUsage, hl]

theorem ownerUsage_updateRow (hg : Shrinks g) (rows : List GameServer) (id : ServerID)
    (owner : UserID) : (ownerUsage (updateRow rows id g) owner).atMost (ownerUsage rows owner) := by
  unfold updateRow
  induction rows generalizing id with
  | nil => simp [QuotaUsage.atMost]
  | cons s rows ih =>
    cases id with
    | zero =>
      rw [modify_zero_cons, ownerUsage_cons, ownerUsage_cons, hg.cpus, hg.memoryMB]
      by_cases hn : liveOf owner (g s) = true
      · simp [hn, hg.live hn, QuotaUsage.atMost]
      · rw [if_neg hn]
        split <;> simp [QuotaUsage.atMost, QuotaUsage.plus]
    | succ id =>
      have hr := ih id
      rw [modify_succ_cons, ownerUsage_cons, ownerUsage_cons]
      split
      · simp only [QuotaUsage.atMost, QuotaUsage.plus] at hr ⊢
        omega
      · exact hr

theorem ownerUsage_append (rows : List GameServer) (n : NewServer) (id : ServerID)
    (owner : UserID) :
    ownerUsage (rows ++ [n.row id]) owner =
      if n.ownerID = owner then (ownerUsage rows owner).plus n.cpus n.memoryMB
      else ownerUsage rows owner := by
  by_cases ho : n.ownerID = owner
  · simp [ownerUsage, QuotaUsage.plus, filter_append, liveOf, NewServer.row, ho]
  · simp [ownerUsage, filter_append, liveOf, NewServer.row, ho]

structure KeepsSpec (g : GameServer → GameServer) : Prop where
  id : ∀ s, (g s).id = s.id
  owner : ∀ s, (g s).ownerID = s.ownerID
  name : ∀ s, (g s).name = s.name
  version : ∀ s, (g s).version = s.version
  cpus : ∀ s, (g s).cpus = s.cpus
  memoryMB : ∀ s, (g s).memoryMB = s.memoryMB

theorem KeepsSpec.of_guarded {p : GameServer → Bool} (hg : KeepsSpec g) :
    KeepsSpec fun s => if p s then g s else s := by
  refine ⟨?_, ?_, ?_, ?_, ?_, ?_⟩ <;>
    (intro s; split <;> simp [hg.id, hg.owner, hg.name, hg.version, hg.cpus, hg.memoryMB])

theorem Call.keepsSpec (hw : e.writes now = some (id, g)) : KeepsSpec g := by
  have hp : ∀ {g : GameServer → GameServer}, (∀ s, (g s).id = s.id ∧
      (g s).ownerID = s.ownerID ∧ (g s).name = s.name ∧ (g s).version = s.version ∧
      (g s).cpus = s.cpus ∧ (g s).memoryMB = s.memoryMB) → KeepsSpec g := by
    intro g h
    exact ⟨fun s => (h s).1, fun s => (h s).2.1, fun s => (h s).2.2.1, fun s => (h s).2.2.2.1,
      fun s => (h s).2.2.2.2.1, fun s => (h s).2.2.2.2.2⟩
  cases e with
  | markLost i m | markHealth i b o m =>
    cases hw
    exact .of_guarded (hp fun _ => ⟨rfl, rfl, rfl, rfl, rfl, rfl⟩)
  | _ => first | (cases hw; exact hp fun _ => ⟨rfl, rfl, rfl, rfl, rfl, rfl⟩) | cases hw

theorem Call.shrinks (hw : e.writes now = some (id, g)) : Shrinks g :=
  have hk := Call.keepsSpec hw
  ⟨hk.owner, hk.cpus, hk.memoryMB, fun s => (Call.writes_desired hw s).2⟩

theorem ownerUsage_rewrites {rows : List GameServer} (hm : Rewrites f l rows)
    (hl : ∀ n, l ≠ .create n) (owner : UserID) :
    (ownerUsage rows owner).atMost (ownerUsage f.rows owner) := by
  have hk : ∀ {g : GameServer → GameServer} (id : ServerID), Shrinks g →
      (ownerUsage (updateRow f.rows id g) owner).atMost (ownerUsage f.rows owner) :=
    fun id hg => ownerUsage_updateRow hg f.rows id owner
  cases hm with
  | same => exact ⟨Nat.le_refl _, Nat.le_refl _, Nat.le_refl _⟩
  | create n => exact absurd rfl (hl n)
  | write order e k st id g _ hw => exact hk id (Call.shrinks hw)
  | _ => exact hk _ ⟨fun _ => rfl, fun _ => rfl, fun _ => rfl, fun _ h => h⟩

def defaultCPUs : Int := 2

def defaultMemoryMB : Int := 2048

def orDefault (v d : Int) : Int := if v ≤ 0 then d else v

structure CreateServerRequest where
  name : String
  version : String
  templateID : String
  answers : List (String × String)
  eulaAccepted : Bool
  cpus : Int
  memoryMB : Int
  deriving DecidableEq

/-- A number that is left out is zero, and is not checked. -/
def CreateServerRequest.valid (req : CreateServerRequest) : Bool :=
  1 ≤ req.name.length && req.name.length ≤ 64 &&
    (req.cpus = 0 || 1 ≤ req.cpus && req.cpus ≤ 16) &&
    (req.memoryMB = 0 || 512 ≤ req.memoryMB && req.memoryMB ≤ 65536)

def CreateServerRequest.sizeCPUs (req : CreateServerRequest) : Nat :=
  (orDefault req.cpus defaultCPUs).toNat

def CreateServerRequest.sizeMemoryMB (req : CreateServerRequest) : Nat :=
  (orDefault req.memoryMB defaultMemoryMB).toNat

structure Manifest where
  eulaNeeded : Bool
  imageTag : String
  deriving DecidableEq

inductive ManifestErr where
  | notConfigured | notFound | unreachable
  deriving DecidableEq

inductive ResolveErr where
  | invalidAnswer (text : String)
  | other
  deriving DecidableEq

inductive Ask where
  | manifestParsed (id : String)
  | resolve (id : String) (answers : List (String × String))
  | getQuota (owner : UserID)
  | ownerUsage (owner : UserID)
  | listHosts
  | insert (n : NewServer)
  deriving DecidableEq

abbrev Reply : Ask → Type
  | .manifestParsed _ => Except ManifestErr Manifest
  | .resolve _ _ => Except ResolveErr (List String × String)
  | .getQuota _ => Except Err UserQuota
  | .ownerUsage _ => Except Err QuotaUsage
  | .listHosts => Except Err (List Host)
  | .insert _ => Except Err GameServer

inductive CreateResponse where
  | created (s : GameServer)
  | invalid
  | badRequest (error : String)
  | forbidden (reason : String)
  | notFound (error : String)
  | badGateway (error : String)
  | unavailable (error : String)
  | internalError
  deriving DecidableEq

abbrev Handler := Prog Ask Reply

def ask (e : Ask) : Handler (Reply e) := .call e .done

structure Launch where
  version : String
  imageRef : Option String
  env : List String
  deriving DecidableEq

def applyTemplate (req : CreateServerRequest) : Handler (Except CreateResponse Launch) := do
  match ← ask (.manifestParsed req.templateID) with
  | .error .notConfigured =>
    return .error (.unavailable "template registry is not configured")
  | .error .notFound => return .error (.notFound "template not found")
  | .error .unreachable =>
    return .error (.badGateway "could not reach the template registry")
  | .ok m =>
    if m.eulaNeeded && !req.eulaAccepted then
      return .error (.badRequest "this template requires accepting its EULA")
    else
      match ← ask (.resolve req.templateID req.answers) with
      | .error (.invalidAnswer text) => return .error (.badRequest text)
      | .error .other => return .error .internalError
      | .ok (env, imageRef) => return .ok ⟨m.imageTag, some imageRef, env⟩

def launch (req : CreateServerRequest) : Handler (Except CreateResponse Launch) :=
  if req.templateID ≠ "" then applyTemplate req
  else if req.version = "" then
    return .error (.badRequest "version is required when no template_id is given")
  else return .ok ⟨req.version, none, []⟩

/-- The answer to give when the quota does not let the request through. -/
def withinQuota (owner : UserID) (cpus memoryMB : Nat) : Handler (Option CreateResponse) := do
  match ← ask (.getQuota owner) with
  | .error _ => return some .internalError
  | .ok quota =>
    match ← ask (.ownerUsage owner) with
    | .error _ => return some .internalError
    | .ok usage =>
      if (quota.allows usage cpus memoryMB).1 then return none
      else return some (.forbidden (quota.allows usage cpus memoryMB).2)

def canEverFit (hosts : List Host) (cpus memMB : Nat) : Bool :=
  hosts.isEmpty || hosts.any fun h => h.cpusTotal ≥ cpus && h.memoryMBTotal ≥ memMB

def createWithin (n : NewServer) : Handler CreateResponse := do
  match ← ask .listHosts with
  | .error _ => return .internalError
  | .ok hosts =>
    if !canEverFit hosts n.cpus n.memoryMB then
      return .badRequest "requested resources exceed the capacity of any host in the fleet"
    else
      match ← ask (.insert n) with
      | .error _ => return .internalError
      | .ok s => return .created s

def create (caller : UserID) (req : CreateServerRequest) : Handler CreateResponse := do
  if !req.valid then return .invalid
  match ← launch req with
  | .error r => return r
  | .ok l =>
    match ← withinQuota caller req.sizeCPUs req.sizeMemoryMB with
    | some r => return r
    | none =>
      createWithin ⟨caller, req.name, "minecraft", l.version, req.sizeCPUs, req.sizeMemoryMB, l.imageRef,
        l.env⟩

structure CreateJob where
  caller : UserID
  req : CreateServerRequest
  deriving DecidableEq

structure Outcome where
  fault : Option String
  manifest : Except ManifestErr Manifest
  resolved : Except ResolveErr (List String × String)

def fine : Outcome := ⟨none, .error .notConfigured, .error .other⟩

def reply (fault : Option String) (a : α) : Except Err α :=
  match fault with
  | some text => .error (.db text)
  | none => .ok a

def perform (quota : UserID → UserQuota) (o : Outcome) : (e : Ask) → Fleet → Reply e × Fleet
  | .manifestParsed _, f => (o.manifest, f)
  | .resolve _ _, f => (o.resolved, f)
  | .getQuota owner, f => (reply o.fault (quota owner), f)
  | .ownerUsage owner, f => (reply o.fault (ownerUsage f.rows owner), f)
  | .listHosts, f => (reply o.fault f.hosts, f)
  | .insert n, f =>
    match o.fault with
    | some text => (.error (.db text), f)
    | none => (.ok (n.row f.rows.length), { f with rows := f.rows ++ [n.row f.rows.length] })

inductive Admission where
  | asked
  | quoted (q : UserQuota)
  | weighed (q : UserQuota) (u : QuotaUsage)
  deriving DecidableEq

def Admission.next : Admission → (e : Ask) → Reply e → Admission
  | .asked, .getQuota _, .ok q => .quoted q
  | .quoted q, .ownerUsage _, .ok u => .weighed q u
  | st, _, _ => st

def Label.isCreate : Label → Bool
  | .create _ => true
  | _ => false

def creations (d : Deployment) (quota : UserID → UserQuota) :
    System CreateJob Admission Ask Reply CreateResponse Fleet Outcome Label where
  body j := create j.caller j.req
  first _ := .asked
  note := Admission.next
  perform := perform quota
  other l f := if Label.isCreate l then none else step d f l

abbrev Creations := Pool CreateJob Admission Ask Reply CreateResponse Fleet

/-- A server is inserted only after a quota check that lets it through, and refused only by one
that does not. -/
def admits : System.Conduct CreateJob Admission Ask CreateResponse where
  allows j st e :=
    match e with
    | .getQuota owner => st = .asked ∧ owner = j.caller
    | .ownerUsage owner => (∃ q, st = .quoted q) ∧ owner = j.caller
    | .insert n => n.ownerID = j.caller ∧ ∃ q u, st = .weighed q u ∧
        (q.allows u n.cpus n.memoryMB).1 = true
    | _ => True
  answers j st r := ∀ reason, r = .forbidden reason → ∃ q u, st = .weighed q u ∧
    (q.allows u j.req.sizeCPUs j.req.sizeMemoryMB).1 = false

theorem launch_follows (j : CreateJob) : (launch j.req).Follows (admits.allows j) Admission.next
      (fun st r => st = .asked ∧ ∀ a, r = .error a → ∀ reason, a ≠ .forbidden reason) .asked := by
  unfold launch applyTemplate
  split
  · refine ⟨trivial, fun r => ?_⟩
    rcases r with e | m
    · cases e <;> simp [Admission.next]
    simp only [Prog.bind_eq, Prog.done_bind, Prog.pure_eq]
    split
    · simp [Admission.next]
    refine ⟨trivial, fun r => ?_⟩
    rcases r with e | ⟨env, imageRef⟩
    · cases e <;> simp [Admission.next]
    · simp [Admission.next]
  · split <;> simp

theorem withinQuota_follows (j : CreateJob) (cpus memMB : Nat) :
    (withinQuota j.caller cpus memMB).Follows (admits.allows j) Admission.next
      (fun st r => (r = none → ∃ q u, st = .weighed q u ∧ (q.allows u cpus memMB).1 = true) ∧
        ∀ reason, r = some (.forbidden reason) → ∃ q u, st = .weighed q u ∧
          (q.allows u cpus memMB).1 = false) .asked := by
  refine ⟨⟨rfl, rfl⟩, fun r => ?_⟩
  cases r with
  | error e => simp
  | ok q =>
    refine ⟨⟨⟨q, rfl⟩, rfl⟩, fun r => ?_⟩
    cases r with
    | error e => simp
    | ok u =>
      simp only [Prog.done_bind, Prog.pure_eq, Admission.next]
      split
      · rename_i ha
        exact ⟨fun _ => ⟨q, u, rfl, ha⟩, fun reason h => by cases h⟩
      · rename_i hr
        exact ⟨fun h => (by cases h), fun _ _ => ⟨q, u, rfl, Bool.eq_false_iff.mpr hr⟩⟩

theorem createWithin_follows (j : CreateJob) (n : NewServer) (ho : n.ownerID = j.caller)
    (ha : (q.allows u n.cpus n.memoryMB).1 = true) :
    (createWithin n).Follows (admits.allows j) Admission.next (admits.answers j) (.weighed q u) := by
  refine ⟨trivial, fun r => ?_⟩
  cases r with
  | error e => simp [admits]
  | ok hosts =>
    simp only [Prog.bind_eq, Prog.done_bind, Prog.pure_eq, Admission.next]
    split
    · simp [admits]
    · refine ⟨⟨ho, q, u, rfl, ha⟩, fun r => ?_⟩
      cases r <;> simp [admits]

theorem create_follows (j : CreateJob) :
    (create j.caller j.req).Follows (admits.allows j) Admission.next (admits.answers j)
      .asked := by
  unfold create
  split
  · simp [admits]
  apply Prog.Follows.bind
  refine (launch_follows j).mono fun st r ⟨hs, hp⟩ => ?_
  subst hs
  cases r with
  | error a => exact fun reason h => absurd h (hp a rfl reason)
  | ok l =>
    apply Prog.Follows.bind
    refine (withinQuota_follows j _ _).mono fun st o ⟨hn, hso⟩ => ?_
    cases o with
    | some r => exact fun reason h => hso reason (congrArg some h)
    | none =>
      obtain ⟨q, u, rfl, ha⟩ := hn rfl
      exact createWithin_follows j _ rfl ha

theorem creations_keeps (d : Deployment) (quota : UserID → UserQuota) :
    (creations d quota).Keeps admits := fun j => create_follows j

def Quoted (quota : UserID → UserQuota) (_ : Nat) (j : CreateJob) (st : Admission) (_ : Fleet) :
    Prop :=
  match st with
  | .asked => True
  | .quoted q => q = quota j.caller
  | .weighed q _ => q = quota j.caller

/-- When a request of the owner's inserts its server, the owner uses no more than the request
has read. -/
def Undisturbed (owner : UserID) (p : Creations) : Turn CreateJob Outcome Label → Prop
  | .turn i _ => ∀ t ∈ p.threads[i]?, t.job.caller = owner →
    match t.stage, t.prog.next? with
    | .weighed _ u, some (.insert _) => (ownerUsage p.shared.rows owner).atMost u
    | _, _ => True
  | _ => True

instance (owner : UserID) (p : Creations) (l : Turn CreateJob Outcome Label) :
    Decidable (Undisturbed owner p l) := by
  unfold Undisturbed
  split
  · have hdec : ∀ t : Thread CreateJob Admission Ask Reply CreateResponse,
        Decidable (t.job.caller = owner →
          match t.stage, t.prog.next? with
          | .weighed _ u, some (.insert _) => (ownerUsage p.shared.rows owner).atMost u
          | _, _ => True) := by
      intro t
      split <;> infer_instance
    infer_instance
  · infer_instance

section Steps

variable {d : Deployment} {quota : UserID → UserQuota} {owner : UserID} {p p' : Creations}
    {l : Turn CreateJob Outcome Label}
    {ok : Creations → Turn CreateJob Outcome Label → Creations → Prop} {f f0 : Fleet}

theorem creations_other {l : Label} (h : (creations d quota).other l f = some f') :
    (∀ n, l ≠ .create n) ∧ step d f l = some f' := by
  simp only [creations] at h
  split at h
  · cases h
  rename_i hl
  refine ⟨fun n hn => hl ?_, h⟩
  rw [hn]
  rfl

theorem Quoted.next {i : Nat} {j : CreateJob} {st : Admission} {e : Ask} {f f' : Fleet}
    (h : Quoted quota i j st f) (ha : admits.allows j st e) (o : Outcome) :
    Quoted quota i j (st.next e (perform quota o e f).1) f' := by
  cases e with
  | getQuota caller =>
    obtain ⟨rfl, rfl⟩ := ha
    cases hf : o.fault <;> simp [perform, reply, hf, Admission.next, Quoted]
  | ownerUsage caller =>
    obtain ⟨⟨q, rfl⟩, -⟩ := ha
    cases hf : o.fault <;> simpa [perform, reply, hf, Admission.next, Quoted] using h
  | _ => cases st <;> exact h

theorem next_weighed {st : Admission} {e : Ask} {q : UserQuota}
    (h : st.next e (perform quota o e f).1 = .weighed q u) :
    st = .weighed q u ∨ ∃ owner, e = .ownerUsage owner ∧ ownerUsage f.rows owner = u := by
  cases e with
  | getQuota caller | ownerUsage caller =>
    cases st <;> cases hf : o.fault <;> simp_all [perform, reply, Admission.next]
  | _ => cases st <;> exact .inl h

theorem perform_usage (quota : UserID → UserQuota) (owner : UserID) (o : Outcome) (e : Ask)
    (f : Fleet) :
    ownerUsage (perform quota o e f).2.rows owner = ownerUsage f.rows owner ∨
      ∃ n, e = .insert n ∧ n.ownerID = owner ∧
        ownerUsage (perform quota o e f).2.rows owner =
          (ownerUsage f.rows owner).plus n.cpus n.memoryMB := by
  cases e with
  | insert n =>
    cases hf : o.fault with
    | some text => simp [perform, hf]
    | none =>
      simp only [perform, hf, ownerUsage_append]
      split
      · rename_i ho
        exact .inr ⟨n, rfl, ho, rfl⟩
      · exact .inl rfl
  | _ => exact .inl rfl

abbrev Proper (d : Deployment) (quota : UserID → UserQuota) : Creations → Prop :=
  (creations d quota).Holds admits (fun _ => True) (Quoted quota)

theorem Proper.step (h : Proper d quota p) (hs : (creations d quota).step p l = some p') :
    Proper d quota p' := by
  apply System.Holds.step h (creations_keeps d quota) hs
  · intro j _
    trivial
  · intro i o j st e k _ _ ha hq
    exact ⟨trivial, hq.next ha o, fun _ _ _ _ ho => ho⟩
  · intro w f' _ _
    exact ⟨trivial, fun _ _ _ ho => ho⟩

theorem Proper.of_reaches (hr : Reaches (creations d quota).step ok ⟨f0, []⟩ p) :
    Proper d quota p :=
  hr.invariant (I := Proper d quota) (.start trivial) fun _ _ _ h hs _ => h.step hs

theorem covers_step (h : Proper d quota p) (hs : (creations d quota).step p l = some p')
    (hl : Undisturbed owner p l) (hc : (quota owner).Covers (ownerUsage p.shared.rows owner)) :
    (quota owner).Covers (ownerUsage p'.shared.rows owner) := by
  cases l with
  | start j =>
    cases hs
    exact hc
  | other w =>
    obtain ⟨f', hst, rfl⟩ := System.step_other hs
    obtain ⟨hcr, hst⟩ := creations_other hst
    exact hc.of_atMost (ownerUsage_rewrites (step_rewrites hst) hcr owner)
  | turn i o =>
    obtain ⟨j, st, e, k, hi, rfl⟩ := System.step_turn hs
    change (quota owner).Covers (ownerUsage (perform quota o e p.shared).2.rows owner)
    rcases perform_usage quota owner o e p.shared with hsa | hg
    · exact hsa.symm ▸ hc
    -- the server that is inserted was let through at a usage that has not been passed since
    obtain ⟨n, rfl, ho, hp⟩ := hg
    obtain ⟨hca, q, u, rfl, hf⟩ := (h.keeps _ (mem_of_getElem? hi)).1
    obtain rfl : q = quota j.caller := h.threads i _ hi
    have hr : (ownerUsage p.shared.rows owner).atMost u :=
      hl ⟨j, .weighed _ u, .call (.insert n) k⟩ (by rw [hi]; rfl) (hca.symm.trans ho)
    have ha := (UserQuota.allows_iff _ _ _ _).mp hf
    rw [← hca, ho] at ha
    rw [hp]
    refine ha.of_atMost ?_
    simp only [QuotaUsage.atMost, QuotaUsage.plus] at hr ⊢
    omega

theorem weighed_then (hr : Reaches (creations d quota).step ok ⟨f0, []⟩ p) (i : Nat)
    (t : Thread CreateJob Admission Ask Reply CreateResponse) (hi : p.threads[i]? = some t)
    (q : UserQuota) (u : QuotaUsage) (ht : t.stage = .weighed q u) :
    ∃ p0 : Creations, Reaches (creations d quota).step ok ⟨f0, []⟩ p0 ∧
      Reaches (creations d quota).step ok p0 p ∧ p0.next? i = some (.ownerUsage t.job.caller) ∧
      ownerUsage p0.shared.rows t.job.caller = u := by
  induction hr generalizing i t q u with
  | start => cases hi
  | @next s s' l hp hs ho ih =>
    rcases System.step_thread hs hi with hol | ⟨j, -, -, rfl⟩ | ⟨o, j, st, e, k, -, hol, rfl⟩
    · obtain ⟨p0, h0, hto, hn, hu⟩ := ih i t hol q u ht
      exact ⟨p0, h0, .next l hto hs ho, hn, hu⟩
    · cases ht
    rcases next_weighed ht with hst | ⟨owner, rfl, hu⟩
    · obtain ⟨p0, h0, hto, hn, hu⟩ := ih i _ hol q u hst
      exact ⟨p0, h0, .next l hto hs ho, hn, hu⟩
    have hpr := Proper.of_reaches hp
    obtain rfl : owner = j.caller := (hpr.keeps _ (mem_of_getElem? hol)).1.2
    exact ⟨s, hp, .next l .start hs ho, by simp [Pool.next?, hol, Prog.next?], hu⟩

end Steps

/-- In every run a creation is refused only for what its owner used when it asked, and in
every run in which no insert of the owner's finds more than was read, the owner stays within the
quota. -/
theorem quotas_bound_ownership (d : Deployment) (quota : UserID → UserQuota) (owner : UserID)
    (f0 : Fleet) (h0 : (quota owner).Covers (ownerUsage f0.rows owner)) (p : Creations)
    (hrun : Reaches (creations d quota).step (fun _ _ _ => True) ⟨f0, []⟩ p) :
    (Reaches (creations d quota).step (fun q l _ => Undisturbed owner q l) ⟨f0, []⟩ p →
      (quota owner).Covers (ownerUsage p.shared.rows owner)) ∧
    ∀ i t reason, p.threads[i]? = some t → t.prog.result? = some (.forbidden reason) →
      ∃ p0 : Creations, Reaches (creations d quota).step (fun _ _ _ => True) ⟨f0, []⟩ p0 ∧
        Reaches (creations d quota).step (fun _ _ _ => True) p0 p ∧
        p0.next? i = some (.ownerUsage t.job.caller) ∧
        ¬ (quota t.job.caller).Covers ((ownerUsage p0.shared.rows t.job.caller).plus
            t.job.req.sizeCPUs t.job.req.sizeMemoryMB) := by
  refine ⟨fun hcalm => ?_, fun i t reason hi hresult => ?_⟩
  · have hboth := hcalm.invariant
      (I := fun q => Proper d quota q ∧ (quota owner).Covers (ownerUsage q.shared.rows owner))
      ⟨.start trivial, h0⟩ fun q l q' h hs hl => ⟨h.1.step hs, covers_step h.1 hs hl h.2⟩
    exact hboth.2
  have hproper := Proper.of_reaches hrun
  have hkeeps := hproper.keeps t (mem_of_getElem? hi)
  rw [Prog.eq_done_of_result? hresult] at hkeeps
  obtain ⟨q, u, hst, hrefused⟩ := hkeeps reason rfl
  obtain ⟨p0, hto0, hto, hnext, hu⟩ := weighed_then hrun i t hi q u hst
  have hquoted := hproper.threads i t hi
  rw [hst] at hquoted
  refine ⟨p0, hto0, hto, hnext, fun hcovers => ?_⟩
  rw [hu, ← show q = quota t.job.caller from hquoted, ← UserQuota.allows_iff, hrefused] at hcovers
  cases hcovers

def plainRequest : CreateServerRequest := ⟨"s", "1.21", "", [], false, 0, 0⟩

def oneEach : UserID → UserQuota := fun _ => ⟨1, 0, 0⟩

def created (i : Nat) : List (Turn CreateJob Outcome Label) :=
  .start ⟨0, plainRequest⟩ :: List.replicate 4 (.turn i fine)

theorem quotas_bound_ownership_refused : ∃ p : Creations, ∃ t, p.threads[1]? = some t ∧
      t.prog.result? = some (.forbidden "server count quota exceeded") ∧
      (oneEach 0).Covers (ownerUsage p.shared.rows 0) ∧
      ∃ p0 : Creations, ¬ (oneEach 0).Covers ((ownerUsage p0.shared.rows 0).plus
            plainRequest.sizeCPUs plainRequest.sizeMemoryMB) := by
  obtain ⟨p, hrun, hp⟩ := Reaches.exists_run (creations oneHost oneEach).step
    (fun q l _ => Undisturbed 0 q l) ⟨.init, []⟩
    (created 0 ++ [.start ⟨0, plainRequest⟩, .turn 1 fine, .turn 1 fine])
    (fun p => p.threads[1]?.any fun t : Thread CreateJob Admission Ask Reply CreateResponse =>
        decide (t.job = ⟨0, plainRequest⟩) &&
          decide (t.prog.result? = some (.forbidden "server count quota exceeded")))
    (by decide +kernel)
  simp only [Option.any_eq_true, Bool.and_eq_true, decide_eq_true_eq] at hp
  obtain ⟨t, hi, hjob, hresult⟩ := hp
  have hall : Reaches (creations oneHost oneEach).step (fun _ _ _ => True) ⟨.init, []⟩ p :=
    hrun.mono fun _ _ _ _ => trivial
  obtain ⟨hbound, hrefused⟩ := quotas_bound_ownership oneHost oneEach 0 .init (by decide) p hall
  obtain ⟨p0, -, -, -, hexceeds⟩ := hrefused 1 t _ hi hresult
  rw [hjob] at hexceeds
  exact ⟨p, t, hi, hresult, hbound hrun, p0, hexceeds⟩

/-- Two creations read the usage before either inserts, and an owner who may have one server has
two. -/
theorem quota_overrun : (oneEach 0).Covers (ownerUsage Fleet.init.rows 0) ∧
    ∃ p : Creations, Reaches (creations oneHost oneEach).step (fun _ _ _ => True) ⟨.init, []⟩ p ∧
      (ownerUsage p.shared.rows 0).servers = 2 ∧
      ¬ (oneEach 0).Covers (ownerUsage p.shared.rows 0) := by
  refine ⟨by decide, ?_⟩
  exact Reaches.exists_check ([.start ⟨0, plainRequest⟩, .start ⟨0, plainRequest⟩] ++
    [.turn 0 fine, .turn 1 fine, .turn 0 fine, .turn 1 fine, .turn 0 fine, .turn 1 fine,
      .turn 0 fine, .turn 1 fine]) (by decide +kernel)

end Craftling.Api
