import Craftling.Control.Requests

namespace Craftling.Reaper
open Effects List Bool
open Control (Fleet Deployment GameServer NewServer ServerID Label)

abbrev Text := List Char

def isSafe (r : Char) : Bool :=
  ('a' ≤ r && r ≤ 'z') || ('A' ≤ r && r ≤ 'Z') || ('0' ≤ r && r ≤ '9') || r = '.' || r = '_' || r = '-'

def safeKey (serverID : Text) : Text :=
  match serverID.map fun r => if isSafe r then r else '_' with
  | [] => ['_']
  | b => b

def worldSuffix : Text := ['.', 'w', 'o', 'r', 'l', 'd']

def path (key : Text) : Text := safeKey key ++ worldSuffix

def stem (name : Text) : Option Text :=
  if worldSuffix.isSuffixOf name then some (name.take (name.length - worldSuffix.length)) else none

def isHex (c : Char) : Bool := ('0' ≤ c && c ≤ '9') || ('a' ≤ c && c ≤ 'f')

def isUUID (t : Text) : Bool :=
  t.length = 36 && t.zipIdx.all fun x => if x.2 ∈ [8, 13, 18, 23] then x.1 = '-' else isHex x.1

structure UUID where
  text : Text
  form : isUUID text = true
  deriving DecidableEq

inductive Call where
  | list
  | listActiveIDs
  | delete (key : Text)
  deriving DecidableEq

abbrev Answer : Call → Type
  | .list => Except String (List Text)
  | .listActiveIDs => Except String (List Text)
  | .delete _ => Except String Unit

abbrev Act := Prog Call Answer

def ask (e : Call) : Act (Answer e) := .call e .done

def deleteOrphans (live : List Text) : List Text → Nat → Act Nat
  | [], removed => return removed
  | key :: rest, removed =>
    if key ∈ live then deleteOrphans live rest removed
    else do
      match ← ask (.delete key) with
      | .error _ => deleteOrphans live rest removed
      | .ok _ => deleteOrphans live rest (removed + 1)

def reapWorlds : Act Nat := do
  match ← ask .list with
  | .error _ => return 0
  | .ok [] => return 0
  | .ok stored =>
    match ← ask .listActiveIDs with
    | .error _ => return 0
    | .ok ids => deleteOrphans (ids.map safeKey) stored 0

/-- The control plane with its agents, the id of every row, and the names in the world store. -/
structure Estate where
  fleet : Fleet
  uuids : List UUID
  files : List Text

def Estate.init : Estate := ⟨Fleet.init, [], []⟩

def Estate.listWorlds (x : Estate) : List Text := x.files.filterMap stem

def Estate.listActiveIDs (x : Estate) : List Text :=
  ((x.fleet.rows.zip x.uuids).filter fun r => !r.1.deleted).map fun r => r.2.text

/-- A call that fails has not had its effect, or it has had it and the news got lost. -/
inductive Fault where
  | before (text : String)
  | behind (text : String)
  deriving DecidableEq

def Fault.text : Fault → String
  | .before text => text
  | .behind text => text

def Estate.perform (o : Option Fault) : (e : Call) → Estate → Answer e × Estate
  | .list, x =>
    match o with
    | some fault => (.error fault.text, x)
    | none => (.ok x.listWorlds, x)
  | .listActiveIDs, x =>
    match o with
    | some fault => (.error fault.text, x)
    | none => (.ok x.listActiveIDs, x)
  | .delete key, x =>
    match o with
    | some (.before text) => (.error text, x)
    | some (.behind text) => (.error text, { x with files := x.files.filter (· ≠ path key) })
    | none => (.ok (), { x with files := x.files.filter (· ≠ path key) })

inductive Event where
  | create (n : NewServer) (u : UUID)
  | fleet (l : Label)
  | put (id : ServerID)
  | remove (name : Text)
  | stray (name : Text)

def isCreate : Label → Bool
  | .create _ => true
  | _ => false

/-- Ids are fresh, worlds are stored for servers that have a row, and whatever else lies in the
store is not named like the world of a server. -/
def Estate.other (d : Deployment) : Event → Estate → Option Estate
  | .create n u, x =>
    if u ∈ x.uuids then none
    else (Control.step d x.fleet (.create n)).map fun fleet => { x with fleet, uuids := x.uuids ++ [u] }
  | .fleet l, x =>
    if isCreate l then none else (Control.step d x.fleet l).map fun fleet => { x with fleet }
  | .put id, x => x.uuids[id]?.map fun u => { x with files := path u.text :: x.files }
  | .remove name, x => some { x with files := x.files.filter (· ≠ name) }
  | .stray name, x =>
    if (stem name).any isUUID then none else some { x with files := name :: x.files }

inductive Stage where
  | begun
  | listed (stored : List Text)
  | condemning (stored ids : List Text)
  | failed
  deriving DecidableEq

def note : Stage → (e : Call) → Answer e → Stage
  | .begun, .list, .ok stored => .listed stored
  | .begun, .list, .error _ => .failed
  | .listed stored, .listActiveIDs, .ok ids => .condemning stored ids
  | .listed _, .listActiveIDs, .error _ => .failed
  | st, _, _ => st

def reaping (d : Deployment) : System Unit Stage Call Answer Nat Estate (Option Fault) Event where
  body _ := reapWorlds
  first _ := .begun
  note := note
  perform := Estate.perform
  other := Estate.other d

abbrev Reaping := Pool Unit Stage Call Answer Nat Estate

def Estate.live (x : Estate) (id : ServerID) : Prop := ∃ r ∈ x.fleet.rows[id]?, r.deleted = false

def Estate.stores (x : Estate) (id : ServerID) : Prop := ∃ u ∈ x.uuids[id]?, path u.text ∈ x.files

section Keys

variable {key t : Text} {u : UUID}

theorem safeKey_of_ne (h : t ≠ []) : safeKey t = t.map fun r => if isSafe r then r else '_' := by
  unfold safeKey
  split
  · rename_i hn
    exact absurd (map_eq_nil_iff.mp hn) h
  · rfl

theorem isUUID_chars (h : isUUID t = true) : ∀ c ∈ t, isSafe c = true ∧ c ≠ '_' := by
  intro c hc
  simp only [isUUID, and_eq_true, decide_eq_true_eq, all_eq_true] at h
  obtain ⟨i, hi⟩ := List.getElem?_of_mem hc
  have hx := h.2 (c, i) (mem_zipIdx_iff_getElem?.mpr hi)
  dsimp only at hx
  split at hx
  · rw [of_decide_eq_true hx]
    decide
  simp only [isHex, or_eq_true, and_eq_true, decide_eq_true_eq] at hx
  constructor
  · simp only [isSafe, or_eq_true, and_eq_true, decide_eq_true_eq]
    rcases hx with hx | ⟨hl, hh⟩
    · exact .inl (.inl (.inl (.inr hx)))
    · have hz : c ≤ 'z' := Char.le_trans hh (by decide)
      exact .inl (.inl (.inl (.inl (.inl ⟨hl, hz⟩))))
  · intro hu
    rw [hu] at hx
    exact absurd hx (by decide)

theorem UUID.ne_nil (u : UUID) : u.text ≠ [] := by
  intro hn
  have hf := u.form
  rw [hn] at hf
  cases hf

theorem safeKey_uuid (u : UUID) : safeKey u.text = u.text := by
  rw [safeKey_of_ne u.ne_nil]
  refine (map_congr_left fun c hc => ?_).trans (map_id _)
  rw [if_pos (isUUID_chars u.form c hc).1]
  rfl

theorem eq_of_safeKey_eq_uuid (h : safeKey key = u.text) : key = u.text := by
  have hn : key ≠ [] := by
    intro hni
    rw [hni] at h
    exact (isUUID_chars u.form '_' (h ▸ mem_singleton_self _)).2 rfl
  rw [safeKey_of_ne hn] at h
  rw [← h]
  refine ((map_congr_left fun c hc => ?_).trans (map_id _)).symm
  by_cases hs : isSafe c = true
  · rw [if_pos hs]
    rfl
  have hm : '_' ∈ u.text := by
    rw [← h]
    exact mem_map.mpr ⟨c, hc, if_neg hs⟩
  exact absurd rfl (isUUID_chars u.form '_' hm).2

theorem path_uuid (u : UUID) : path u.text = u.text ++ worldSuffix := by
  rw [path, safeKey_uuid]

theorem eq_of_path_eq (h : path key = path u.text) : key = u.text := by
  rw [path_uuid] at h
  exact eq_of_safeKey_eq_uuid (append_cancel_right h)

theorem stem_eq_some {name : Text} : stem name = some key ↔ name = key ++ worldSuffix := by
  unfold stem
  constructor
  · intro h
    split at h
    · rename_i hs
      obtain ⟨front, rfl⟩ := isSuffixOf_iff_suffix.mp hs
      have hf := Option.some.inj h
      rw [length_append, Nat.add_sub_cancel, take_left] at hf
      rw [hf]
    · cases h
  · rintro rfl
    rw [if_pos (isSuffixOf_iff_suffix.mpr (suffix_append ..)), length_append,
      Nat.add_sub_cancel, take_left]

theorem mem_listWorlds {x : Estate} : key ∈ x.listWorlds ↔ key ++ worldSuffix ∈ x.files := by
  rw [Estate.listWorlds, mem_filterMap]
  constructor
  · rintro ⟨name, hn, hs⟩
    exact stem_eq_some.mp hs ▸ hn
  · intro h
    exact ⟨_, h, stem_eq_some.mpr rfl⟩

end Keys

/-- It deletes what was stored when it listed the store, and not live when it then listed the
servers. -/
def careful : System.Conduct Unit Stage Call Nat where
  allows _ st e :=
    match e with
    | .list => st = .begun
    | .listActiveIDs => ∃ stored, st = .listed stored
    | .delete key => ∃ stored ids, st = .condemning stored ids ∧ key ∈ stored ∧ key ∉ ids.map safeKey
  answers _ _ _ := True

theorem deleteOrphans_follows {stored ids rest : List Text} (hr : ∀ key ∈ rest, key ∈ stored)
    (removed : Nat) :
    (deleteOrphans (ids.map safeKey) rest removed).Follows (careful.allows ()) note
      (careful.answers ()) (.condemning stored ids) := by
  induction rest generalizing removed with
  | nil => trivial
  | cons key rest ih =>
    have hke := hr key (.head _)
    have hr' : ∀ key ∈ rest, key ∈ stored := fun k hk => hr k (.tail _ hk)
    unfold deleteOrphans
    split
    · exact ih hr' removed
    rename_i hd
    refine ⟨⟨stored, ids, rfl, hke, hd⟩, fun r => ?_⟩
    cases r with
    | error text => exact ih hr' removed
    | ok _ => exact ih hr' (removed + 1)

theorem reapWorlds_follows :
    reapWorlds.Follows (careful.allows ()) note (careful.answers ()) .begun := by
  refine ⟨rfl, fun r => ?_⟩
  rcases r with text | (- | ⟨key, rest⟩)
  · trivial
  · trivial
  refine ⟨⟨_, rfl⟩, fun r => ?_⟩
  cases r with
  | error text => trivial
  | ok ids => exact deleteOrphans_follows (fun _ hk => hk) 0

theorem done_of_failed {prog : Act Nat}
    (h : prog.Follows (careful.allows ()) note (careful.answers ()) .failed) : ∃ n, prog = .done n := by
  cases prog with
  | done n => exact ⟨n, rfl⟩
  | call e k =>
    have ha := h.1
    cases e with
    | list => cases ha
    | listActiveIDs => exact absurd ha (by rintro ⟨_, hs⟩; cases hs)
    | delete key => exact absurd ha (by rintro ⟨_, _, hs, _⟩; cases hs)

structure Estate.Sound (x : Estate) : Prop where
  length : x.uuids.length = x.fleet.rows.length
  nodup : x.uuids.Nodup
  owned : ∀ u : UUID, path u.text ∈ x.files → u ∈ x.uuids

def Estate.buried (x : Estate) (u : UUID) : Prop :=
  ∃ (id : Nat) (r : GameServer), x.uuids[id]? = some u ∧ x.fleet.rows[id]? = some r ∧ r.deleted = true

/-- What a pass has listed tells of servers that have been, and what it condemns of servers that
are no more. -/
def Stage.Informed (x : Estate) : Stage → Prop
  | .listed stored => ∀ u : UUID, u.text ∈ stored → u ∈ x.uuids
  | .condemning stored ids => ∀ u : UUID, u.text ∈ stored → u.text ∉ ids.map safeKey → x.buried u
  | _ => True

structure Later (x y : Estate) : Prop where
  uuids : x.uuids <+: y.uuids
  deleted : ∀ (id : Nat) (r : GameServer), x.fleet.rows[id]? = some r → r.deleted = true →
    ∃ r', y.fleet.rows[id]? = some r' ∧ r'.deleted = true

section Servers

variable {d : Deployment} {x y : Estate} {f f' : Fleet} {l : Label} {st : Stage} {u : UUID}

theorem Later.of_same (hf : y.fleet = x.fleet) (hu : y.uuids = x.uuids) : Later x y :=
  ⟨hu ▸ prefix_rfl, fun _ r hr hd => ⟨r, hf ▸ hr, hd⟩⟩

theorem Later.buried (h : Later x y) (hu : x.buried u) : y.buried u := by
  obtain ⟨id, r, hi, hr, hd⟩ := hu
  obtain ⟨r', hr', hd'⟩ := h.deleted id r hr hd
  obtain ⟨more, hm⟩ := h.uuids
  refine ⟨id, r', ?_, hr', hd'⟩
  rw [← hm, List.getElem?_append_left (List.getElem?_eq_some_iff.mp hi).1, hi]

theorem Later.informed (h : Later x y) (hs : st.Informed x) : st.Informed y := by
  cases st with
  | listed stored => exact fun u hu => h.uuids.subset (hs u hu)
  | condemning stored ids => exact fun u hu hd => h.buried (hs u hu hd)
  | begun | failed => trivial

theorem listed_informed (h : x.Sound) : (Stage.listed x.listWorlds).Informed x := by
  intro u hu
  apply h.owned
  rw [path_uuid]
  exact mem_listWorlds.mp hu

theorem condemning_informed (h : x.Sound) {stored : List Text}
    (hs : (Stage.listed stored).Informed x) :
    (Stage.condemning stored x.listActiveIDs).Informed x := by
  intro u hu hd
  obtain ⟨id, hi⟩ := List.getElem?_of_mem (hs u hu)
  have hl : id < x.fleet.rows.length := h.length ▸ (List.getElem?_eq_some_iff.mp hi).1
  refine ⟨id, x.fleet.rows[id], hi, List.getElem?_eq_getElem hl, ?_⟩
  by_contra hli
  have hz : (x.fleet.rows[id], u) ∈ x.fleet.rows.zip x.uuids := by
    apply mem_of_getElem? (i := id)
    rw [List.getElem?_zip_eq_some]
    exact ⟨List.getElem?_eq_getElem hl, hi⟩
  have ha : u.text ∈ x.listActiveIDs := by
    refine mem_map.mpr ⟨_, mem_filter.mpr ⟨hz, ?_⟩, rfl⟩
    rw [Bool.eq_false_of_not_eq_true hli, Bool.not_false]
  exact hd (mem_map.mpr ⟨u.text, ha, safeKey_uuid u⟩)

theorem Estate.Sound.fewer (h : x.Sound) {files : List Text} (hf : ∀ name ∈ files, name ∈ x.files) :
    Estate.Sound { x with files } :=
  ⟨h.length, h.nodup, fun u hu => h.owned u (hf _ hu)⟩

theorem perform_sound (h : x.Sound) (o : Option Fault) (e : Call) :
    (x.perform o e).2.Sound ∧ Later x (x.perform o e).2 := by
  have hd : ∀ key, Estate.Sound { x with files := x.files.filter (· ≠ path key) } := fun key =>
    h.fewer fun _ hn => (mem_filter.mp hn).1
  rcases o with - | (text | text)
  all_goals cases e with
    | list | listActiveIDs => exact ⟨h, .of_same rfl rfl⟩
    | delete key => exact ⟨by first | exact hd key | exact h, .of_same rfl rfl⟩

theorem note_informed (h : x.Sound) (hs : st.Informed x) (o : Option Fault)
    (ha : careful.allows () st e) : (note st e (x.perform o e).1).Informed (x.perform o e).2 := by
  cases e with
  | list =>
    obtain rfl : st = .begun := ha
    cases o with
    | some fault => trivial
    | none => exact listed_informed h
  | listActiveIDs =>
    obtain ⟨stored, rfl⟩ := ha
    cases o with
    | some fault => trivial
    | none => exact condemning_informed h hs
  | delete key =>
    obtain ⟨stored, ids, rfl, -, -⟩ := ha
    exact (perform_sound h o (.delete key)).2.informed hs

theorem rows_deleted (hs : Control.step d f l = some f') (id : Nat) (r : GameServer)
    (hr : f.rows[id]? = some r) (hd : r.deleted = true) :
    ∃ r', f'.rows[id]? = some r' ∧ r'.deleted = true := by
  have hu : ∀ (i : ServerID) (g : GameServer → GameServer),
      (∀ r, r.deleted = true → (g r).deleted = true) →
      ∃ r', (Control.updateRow f.rows i g)[id]? = some r' ∧ r'.deleted = true := by
    intro i g hg
    rw [Control.getElem?_updateRow, hr]
    split
    · exact ⟨g r, rfl, hg r hd⟩
    · exact ⟨r, rfl, hd⟩
  have hre := Control.step_rewrites hs
  generalize f'.rows = rows at hre ⊢
  cases hre with
  | same => exact ⟨r, hr, hd⟩
  | create n =>
    exact ⟨r, by rw [List.getElem?_append_left (List.getElem?_eq_some_iff.mp hr).1, hr], hd⟩
  | updateSpec i name version | setDesired i desired | requestBackup i => exact hu i _ fun _ h => h
  | write order e k st i g ht hw => exact hu i g fun r => (Control.Call.writes_desired hw r).2

theorem rows_length (hs : Control.step d f l = some f') (hl : isCreate l = false) :
    f'.rows.length = f.rows.length := by
  have hr := Control.step_rewrites hs
  generalize f'.rows = rows at hr ⊢
  cases hr with
  | same => rfl
  | create n => cases hl
  | updateSpec i name version => exact length_modify ..
  | setDesired i desired | requestBackup i | write order e k st i g ht hw => exact length_modify ..

theorem create_sound (h : x.Sound) (hu : u ∉ x.uuids)
    (hs : Control.step d x.fleet (.create n) = some fleet) :
    Estate.Sound { x with fleet, uuids := x.uuids ++ [u] } := by
  refine ⟨?_, ?_, fun v hv => mem_append_left _ (h.owned v hv)⟩
  · rw [Control.create_eq hs]
    show (x.uuids ++ [u]).length = (x.fleet.rows ++ [n.row x.fleet.rows.length]).length
    rw [length_append, length_append, h.length]
    rfl
  · refine nodup_append.mpr ⟨h.nodup, nodup_singleton u, fun v hv w hw => ?_⟩
    rw [mem_singleton.mp hw]
    exact fun he => hu (he ▸ hv)

theorem stray_sound (h : x.Sound) {name : Text} (hn : (stem name).any isUUID = false) :
    Estate.Sound { x with files := name :: x.files } := by
  refine ⟨h.length, h.nodup, fun u hu => ?_⟩
  rcases mem_cons.mp hu with he | hu
  · rw [path_uuid] at he
    rw [stem_eq_some.mpr he.symm, Option.any_some, u.form] at hn
    cases hn
  · exact h.owned u hu

theorem other_sound (h : x.Sound) (hw : x.other d w = some y) : y.Sound ∧ Later x y := by
  cases w with
  | create n u =>
    rw [Estate.other] at hw
    split at hw
    · cases hw
    rename_i hu
    obtain ⟨fleet, hs, rfl⟩ := Option.map_eq_some_iff.mp hw
    exact ⟨create_sound h hu hs, prefix_append .., rows_deleted hs⟩
  | fleet l =>
    rw [Estate.other] at hw
    split at hw
    · cases hw
    rename_i hl
    obtain ⟨fleet, hs, rfl⟩ := Option.map_eq_some_iff.mp hw
    have hle := rows_length hs (eq_false_of_not_eq_true hl)
    exact ⟨⟨h.length.trans hle.symm, h.nodup, h.owned⟩, prefix_rfl, rows_deleted hs⟩
  | put id =>
    obtain ⟨u, hu, rfl⟩ := Option.map_eq_some_iff.mp hw
    refine ⟨⟨h.length, h.nodup, fun v hv => ?_⟩, .of_same rfl rfl⟩
    rcases mem_cons.mp hv with he | hv
    · have ht : v.text = u.text := eq_of_path_eq he
      obtain rfl : v = u := by
        cases v
        cases u
        cases ht
        rfl
      exact mem_of_getElem? hu
    · exact h.owned v hv
  | remove name =>
    cases hw
    exact ⟨h.fewer fun _ hn => (mem_filter.mp hn).1, .of_same rfl rfl⟩
  | stray name =>
    rw [Estate.other] at hw
    split at hw
    · cases hw
    rename_i hn
    cases hw
    exact ⟨stray_sound h (eq_false_of_not_eq_true hn), .of_same rfl rfl⟩

end Servers

section Passes

variable {d : Deployment} {p p' : Reaping} {x : Estate} {u : UUID}

def Knowing (d : Deployment) (p : Reaping) : Prop :=
  System.Holds (reaping d) careful Estate.Sound (fun _ _ st x => st.Informed x) p

theorem Knowing.step (h : Knowing d p) (hs : (reaping d).step p l = some p') : Knowing d p' := by
  refine System.Holds.step h (fun _ => reapWorlds_follows) hs ?_ ?_ ?_
  · intro j _
    trivial
  · intro i o j st e k _ _ ha hst
    obtain ⟨hso, hl⟩ := perform_sound h.shared o e
    exact ⟨hso, note_informed h.shared hst o ha, fun _ t _ _ ht => hl.informed ht⟩
  · intro w x _ hw
    obtain ⟨hso, hl⟩ := other_sound h.shared hw
    exact ⟨hso, fun _ t _ ht => hl.informed ht⟩

theorem Knowing.of_reaches {ok : Reaping → Turn Unit (Option Fault) Event → Reaping → Prop}
    (h : Reaches (reaping d).step ok ⟨Estate.init, []⟩ p) : Knowing d p := by
  refine h.invariant (I := Knowing d) (.start ⟨rfl, nodup_nil, fun u hu => ?_⟩) ?_
  · exact absurd hu not_mem_nil
  · intro q l q' hq hs _
    exact hq.step hs

theorem files_kept (hs : st.Informed x) (ha : careful.allows () st e) (o : Option Fault)
    (hu : ¬x.buried u) (hf : path u.text ∈ x.files) : path u.text ∈ (x.perform o e).2.files := by
  cases e with
  | list | listActiveIDs => cases o <;> exact hf
  | delete key =>
    obtain ⟨stored, ids, rfl, hk, hd⟩ := ha
    have hn : path u.text ≠ path key := by
      intro he
      obtain rfl : key = u.text := eq_of_path_eq he.symm
      exact hu (hs u hk hd)
    have hke : path u.text ∈ x.files.filter (· ≠ path key) := mem_filter.mpr ⟨hf, decide_eq_true hn⟩
    rcases o with - | (text | text)
    · exact hke
    · exact hf
    · exact hke

theorem not_buried (h : x.Sound) {id : ServerID} (hu : x.uuids[id]? = some u) (hl : x.live id) :
    ¬x.buried u := by
  rintro ⟨i, r, hi, hr, hd⟩
  obtain ⟨r', hr', hl⟩ := hl
  have hid : i = id := (List.getElem?_inj (List.getElem?_eq_some_iff.mp hi).1 h.nodup).mp (hi.trans hu.symm)
  rw [hid] at hr
  obtain rfl : r' = r := Option.some.inj (hr'.symm.trans hr)
  rw [hd] at hl
  cases hl

end Passes

/-- Whatever happens meanwhile, no call of a pass takes the stored world of a server that is not
deleted, and a pass that could not list the worlds or the servers ends there. -/
theorem reaper_spares_live (d : Deployment) {p : Reaping}
    (h : Reaches (reaping d).step (fun _ _ _ => True) ⟨Estate.init, []⟩ p) :
    (∀ i o p', (reaping d).step p (.turn i o) = some p' → ∀ id, p.shared.live id →
      p.shared.stores id → p'.shared.stores id) ∧
      ∀ t ∈ p.threads, t.stage = .failed → ∃ n, t.prog = .done n := by
  have hknow := Knowing.of_reaches h
  constructor
  · intro i o p' hs id hlive hstores
    obtain ⟨u, hu, hfile⟩ := hstores
    obtain ⟨j, st, e, k, hi, rfl⟩ := System.step_turn hs
    have hkept := files_kept (hknow.threads i _ hi) (hknow.keeps _ (mem_of_getElem? hi)).1 o
      (not_buried hknow.shared hu hlive) hfile
    obtain ⟨more, hmore⟩ := (perform_sound hknow.shared o e).2.uuids
    refine ⟨u, ?_, hkept⟩
    show (p.shared.perform o e).2.uuids[id]? = some u
    rw [← hmore, List.getElem?_append_left (List.getElem?_eq_some_iff.mp hu).1]
    exact hu
  · intro t ht hfailed
    have hfollows := hknow.keeps t ht
    rw [hfailed] at hfollows
    exact done_of_failed hfollows

def idText (last : Char) : Text :=
  List.replicate 8 '0' ++ ['-'] ++ List.replicate 4 '0' ++ ['-'] ++ List.replicate 4 '0' ++ ['-'] ++
    List.replicate 4 '0' ++ ['-'] ++ List.replicate 11 '0' ++ [last]

def firstID : UUID := ⟨idText '1', by decide⟩

def secondID : UUID := ⟨idText '2', by decide⟩

/-- Two servers have worlds, and the second is deleted while a pass is between its lists. -/
def orphanedCalls : List (Turn Unit (Option Fault) Event) :=
  [.other (.create Control.oneServer firstID), .other (.create Control.oneServer secondID),
    .other (.put 0), .other (.put 1), .start (), .turn 0 none,
    .other (.fleet (.setDesired 1 .deleted)), .other (.fleet .tick)] ++
  List.replicate 11 (.other (.fleet Control.plain)) ++ [.turn 0 none]

theorem orphan_condemned :
    ∃ p : Reaping, Reaches (reaping Control.oneHost).step (fun _ _ _ => True) ⟨Estate.init, []⟩ p ∧
      p.next? 0 = some (.delete secondID.text) ∧
      (∀ i o p', (reaping Control.oneHost).step p (.turn i o) = some p' → ∀ id, p.shared.live id →
        p.shared.stores id → p'.shared.stores id) ∧
      ∀ t ∈ p.threads, t.stage = .failed → ∃ n, t.prog = .done n := by
  exact Reaches.exists_then orphanedCalls (by decide +kernel) fun _ hp _ =>
    reaper_spares_live Control.oneHost hp

end Craftling.Reaper
