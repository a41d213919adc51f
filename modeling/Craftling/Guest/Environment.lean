import Craftling.Registry.Resolve

namespace Craftling.Environment
open Registry List Option

structure RunSpec where
  entrypoint : List Text
  cmd : List Text
  env : List Text
  workingDir : Text
  deriving DecidableEq, Repr

def keyOf (e : Text) : Text := e.takeWhile (· ≠ '=')

def entry (kv : Text × Text) : Text := kv.1 ++ '=' :: kv.2

def sortedEnv (env : List (Text × Text)) : List Text :=
  (env.mergeSort fun a b => decide (a.1 ≤ b.1)).map entry

/-- The inner loop of `mergeEnv`: only the first entry of the key is replaced. -/
def replaceFirst (e : Text) : List Text → List Text
  | [] => [e]
  | b :: out => if keyOf b = keyOf e then e :: out else b :: replaceFirst e out

def mergeEnv (base overs : List Text) : List Text := overs.foldl (fun out e => replaceFirst e out) base

def applyRunSpecOverride (base overs : RunSpec) : RunSpec :=
  let command := overs.entrypoint ≠ [] ∨ overs.cmd ≠ []
  ⟨if command then overs.entrypoint else base.entrypoint, if command then overs.cmd else base.cmd,
    if overs.env ≠ [] then mergeEnv base.env overs.env else base.env,
    if overs.workingDir ≠ [] then overs.workingDir else base.workingDir⟩

def pathKey : Text := ['P', 'A', 'T', 'H']

def defaultPath : Text := "/usr/local/sbin:/usr/local/bin:/usr/sbin:/usr/bin:/sbin:/bin".toList

def childEnv (specEnv : List Text) : List Text :=
  if specEnv.any fun kv => (pathKey ++ ['=']).isPrefixOf kv then specEnv
  else specEnv ++ [entry (pathKey, defaultPath)]

/-- A server without an environment of its own sends no run spec. -/
def workloadEnv (image : RunSpec) (server : List (Text × Text)) : List Text :=
  childEnv (if server = [] then image else applyRunSpecOverride image ⟨[], [], sortedEnv server, []⟩).env

def valueIn (e : Text) : Text := (e.dropWhile (· ≠ '=')).tail

/-- The key and the value of an entry. An `=` at its start belongs to the key if there is a second
one, and an entry without any has neither. -/
def readEntry (e : Text) : Option (Text × Text) :=
  if e.head? = some '=' then
    if '=' ∈ e.tail then some ('=' :: keyOf e.tail, valueIn e.tail) else some ([], e.tail)
  else if '=' ∈ e then some (keyOf e, valueIn e) else none

def valueOf (k e : Text) : Option Text :=
  (readEntry e).bind fun kv => if kv.1 = k then some kv.2 else none

def effective (k : Text) : List Text → Option Text
  | [] => none
  | e :: env => (effective k env).or (valueOf k e)

def later (k : Text) : List Text → List Text
  | [] => []
  | e :: env => if keyOf e = k then env else later k env

structure IsKey (k : Text) : Prop where
  nonempty : k ≠ []
  plain : '=' ∉ k

theorem keyOf_entry (h : IsKey kv.1) : keyOf (entry kv) = kv.1 := by
  rw [keyOf, entry, takeWhile_append_of_pos]
  · simp
  · intro c hc
    simpa using fun he : c = '=' => h.plain (he ▸ hc)

theorem valueOf_entry (h : IsKey kv.1) : valueOf kv.1 (entry kv) = some kv.2 := by
  have hv : valueIn (entry kv) = kv.2 := by
    rw [valueIn, entry, dropWhile_append_of_pos]
    · simp
    · intro c hc
      simpa using fun he : c = '=' => h.plain (he ▸ hc)
  have hh : (entry kv).head? ≠ some '=' := by
    obtain ⟨c, cs, hk⟩ := exists_cons_of_ne_nil h.nonempty
    rw [entry, hk]
    intro he
    cases he
    exact h.plain (hk ▸ mem_cons_self ..)
  rw [valueOf, readEntry, if_neg hh, if_pos (by simp [entry]), keyOf_entry h, hv]
  simp

theorem keyOf_of_valueOf (h : valueOf k e = some v) (hk : IsKey k ∨ IsKey (keyOf e)) :
    keyOf e = k := by
  obtain ⟨kv, hr, hv⟩ := bind_eq_some_iff.mp h
  have hkv : kv.1 = k := by
    by_contra hne
    rw [if_neg hne] at hv
    cases hv
  rw [readEntry] at hr
  split at hr
  · rename_i hh
    -- the merge sees an empty key here, and the reader one that is empty or has an `=`
    obtain ⟨cs, rfl⟩ : ∃ cs, e = '=' :: cs := by
      cases e with
      | nil => cases hh
      | cons c cs =>
        cases hh
        exact ⟨cs, rfl⟩
    have hm : ¬IsKey (keyOf ('=' :: cs)) := fun hm => hm.nonempty rfl
    have hn : ¬IsKey k := by
      intro hn
      subst hkv
      split at hr
      · cases hr
        exact hn.plain (.head _)
      · cases hr
        exact hn.nonempty rfl
    exact absurd hk (not_or.mpr ⟨hn, hm⟩)
  · split at hr
    · cases hr
      exact hkv
    · cases hr

theorem valueOf_other (h : keyOf e ≠ k) (hk : IsKey k ∨ IsKey (keyOf e)) : valueOf k e = none := by
  cases hv : valueOf k e with
  | none => rfl
  | some v => exact absurd (keyOf_of_valueOf hv hk) h

theorem effective_replaceFirst_other (h : keyOf e ≠ k) (he : IsKey (keyOf e)) (env : List Text) :
    effective k (replaceFirst e env) = effective k env := by
  induction env with
  | nil => simp [replaceFirst, effective, valueOf_other h (.inr he)]
  | cons b env ih =>
    rw [replaceFirst]
    split
    · rename_i hb
      rw [effective, effective, valueOf_other h (.inr he), valueOf_other (hb ▸ h) (.inr (hb ▸ he))]
    · rw [effective, effective, ih]

theorem effective_replaceFirst (h : IsKey kv.1) (env : List Text) :
    effective kv.1 (replaceFirst (entry kv) env) =
      (effective kv.1 (later kv.1 env)).or (some kv.2) := by
  induction env with
  | nil => simp [replaceFirst, later, effective, valueOf_entry h]
  | cons b env ih =>
    rw [replaceFirst, later, keyOf_entry h]
    split
    · rw [effective, valueOf_entry h]
    · rename_i hb
      rw [effective, ih, valueOf_other hb (.inl h), or_none]

theorem effective_later_other (h : keyOf e ≠ k) (he : IsKey (keyOf e)) (env : List Text) :
    effective k (later k (replaceFirst e env)) = effective k (later k env) := by
  induction env with
  | nil => simp [replaceFirst, later, h]
  | cons b env ih =>
    rw [replaceFirst]
    split
    · rename_i hb
      rw [later, later, if_neg h, if_neg (hb ▸ h)]
    rw [later, later]
    split
    · exact effective_replaceFirst_other h he env
    · exact ih

section Merged

variable {server : List (Text × Text)}

theorem mergeEnv_cons (kv : Text × Text) :
    mergeEnv base ((kv :: server).map entry) = mergeEnv (replaceFirst (entry kv) base) (server.map entry) :=
  rfl

theorem effective_mergeEnv_other (hs : ∀ kv ∈ server, IsKey kv.1 ∧ kv.1 ≠ k) (base : List Text) :
    effective k (mergeEnv base (server.map entry)) = effective k base := by
  induction server generalizing base with
  | nil => rfl
  | cons kv server ih =>
    obtain ⟨hk, hne⟩ := hs kv (.head _)
    rw [mergeEnv_cons, ih fun x hx => hs x (.tail _ hx)]
    have he := keyOf_entry hk
    exact effective_replaceFirst_other (he ▸ hne) (he.symm ▸ hk) base

theorem effective_mergeEnv (hs : ∀ kv ∈ server, IsKey kv.1) (hn : (server.map Prod.fst).Nodup)
    (hm : kv ∈ server) (base : List Text) :
    effective kv.1 (mergeEnv base (server.map entry)) =
      (effective kv.1 (later kv.1 base)).or (some kv.2) := by
  induction server generalizing base with
  | nil => cases hm
  | cons x server ih =>
    have hs' := fun y hy => hs y (.tail _ hy)
    rw [map_cons, nodup_cons] at hn
    rw [mergeEnv_cons]
    rcases mem_cons.mp hm with rfl | hm
    · rw [effective_mergeEnv_other, effective_replaceFirst (hs kv (.head _))]
      exact fun y hy => ⟨hs' y hy, fun he => hn.1 (he ▸ mem_map_of_mem hy)⟩
    have hx := hs x (.head _)
    have hne : x.1 ≠ kv.1 := fun he => hn.1 (he ▸ mem_map_of_mem hm)
    have he := keyOf_entry hx
    rw [ih hs' hn.2 hm, effective_later_other (he ▸ hne) (he.symm ▸ hx)]

theorem effective_append (k e : Text) (env : List Text) :
    effective k (env ++ [e]) = (valueOf k e).or (effective k env) := by
  induction env with
  | nil => simp [effective]
  | cons b env ih => rw [cons_append, effective, ih, effective, Option.or_assoc]

theorem pathKey_isKey : IsKey pathKey := ⟨by decide, by decide⟩

theorem eq_of_mem (h : '=' ∈ e) : ∃ rest, e = keyOf e ++ '=' :: rest := by
  induction e with
  | nil => cases h
  | cons c e ih =>
    by_cases hc : c = '='
    · subst hc
      exact ⟨e, rfl⟩
    obtain ⟨rest, hr⟩ := ih ((mem_cons.mp h).resolve_left (Ne.symm hc))
    have hk : keyOf (c :: e) = c :: keyOf e := by simp [keyOf, hc]
    exact ⟨rest, by rw [hk, cons_append, ← hr]⟩

theorem mem_of_valueOf (h : valueOf k e = some v) : '=' ∈ e := by
  obtain ⟨kv, hr, -⟩ := bind_eq_some_iff.mp h
  rw [readEntry] at hr
  split at hr
  · rename_i hh
    exact mem_of_head? hh
  split at hr
  · assumption
  · cases hr

theorem path_of_valueOf (h : valueOf pathKey e = some v) : (pathKey ++ ['=']).isPrefixOf e = true := by
  obtain ⟨rest, hr⟩ := eq_of_mem (mem_of_valueOf h)
  rw [keyOf_of_valueOf h (.inl pathKey_isKey)] at hr
  rw [ isPrefixOf_iff_prefix, hr]
  exact ⟨rest, by simp⟩

theorem effective_eq_none_iff : effective k env = none ↔ ∀ e ∈ env, valueOf k e = none := by
  induction env with
  | nil => simp [effective]
  | cons e env ih => rw [effective, or_eq_none_iff, ih, forall_mem_cons, and_comm]

theorem valueOf_of_path (h : (pathKey ++ ['=']).isPrefixOf e = true) :
    ∃ v, valueOf pathKey e = some v := by
  obtain ⟨v, rfl⟩ := isPrefixOf_iff_prefix.mp h
  have he : pathKey ++ ['='] ++ v = entry (pathKey, v) := by simp [entry]
  rw [he]
  exact ⟨v, valueOf_entry pathKey_isKey⟩

theorem effective_childEnv (k : Text) (env : List Text) : effective k (childEnv env) =
      (effective k env).or (if k = pathKey then some defaultPath else none) := by
  unfold childEnv
  split
  · rename_i ha
    obtain ⟨e, hm, hp⟩ := any_eq_true.mp ha
    obtain ⟨v, hv⟩ := valueOf_of_path hp
    split
    · rename_i hk
      subst hk
      cases hw : effective pathKey env with
      | none =>
        rw [effective_eq_none_iff.mp hw e hm] at hv
        cases hv
      | some w => rfl
    · rw [or_none]
  · rename_i ha
    rw [effective_append]
    split
    · rename_i hk
      subst hk
      have hn : effective pathKey env = none := by
        refine effective_eq_none_iff.mpr fun e he => ?_
        cases hv : valueOf pathKey e with
        | none => rfl
        | some v => exact absurd (any_eq_true.mpr ⟨e, he, path_of_valueOf hv⟩) ha
      rw [hn, or_none]
      exact valueOf_entry pathKey_isKey
    · rename_i hk
      have hkey : keyOf (entry (pathKey, defaultPath)) = pathKey := keyOf_entry pathKey_isKey
      rw [valueOf_other (hkey ▸ Ne.symm hk) (.inr (hkey ▸ pathKey_isKey)), none_or, or_none]

theorem workloadEnv_eq (image : RunSpec) (server : List (Text × Text)) :
    workloadEnv image server = childEnv (mergeEnv image.env (sortedEnv server)) := by
  unfold workloadEnv
  congr 1
  split
  · rename_i hn
    simp [hn, sortedEnv, mergeEnv]
  rename_i hn
  have hs : sortedEnv server ≠ [] := by
    intro hs
    have hl := congrArg List.length hs
    rw [sortedEnv, length_map, length_mergeSort] at hl
    exact hn (length_eq_zero_iff.mp hl)
  exact if_pos hs

/-- A key of the server has its value exactly if no later entry of the image has that key with another
one. Every other key has the value that it has in the image, and a path is added if there is none. -/
theorem env_overrides_iff (image : RunSpec) (hs : ∀ kv ∈ server, IsKey kv.1)
    (hn : (server.map Prod.fst).Nodup) :
    ((∀ kv ∈ server, effective kv.1 (workloadEnv image server) = some kv.2) ↔
        ∀ kv ∈ server, ∀ v, effective kv.1 (later kv.1 image.env) = some v → v = kv.2) ∧
      ∀ k, k ∉ server.map Prod.fst → effective k (workloadEnv image server) =
        (effective k image.env).or (if k = pathKey then some defaultPath else none) := by
  have hp := mergeSort_perm server fun a b => decide (a.1 ≤ b.1)
  rw [workloadEnv_eq]
  refine ⟨forall₂_congr fun kv hm => ?_, fun k hk => ?_⟩
  · have hs' := fun x hx => hs x (hp.mem_iff.mp hx)
    rw [effective_childEnv, sortedEnv,
      effective_mergeEnv hs' ((hp.map _).nodup_iff.mpr hn) (hp.mem_iff.mpr hm)]
    cases effective kv.1 (later kv.1 image.env) <;> simp
  · rw [effective_childEnv, sortedEnv, effective_mergeEnv_other]
    intro x hx
    have hx' := hp.mem_iff.mp hx
    exact ⟨hs x hx', fun he => hk (he ▸ mem_map_of_mem hx')⟩

end Merged

def imageWith (env : List Text) : RunSpec := ⟨[], [], env, []⟩

def overridden : List Text :=
  workloadEnv (imageWith [['A', '=', '1'], ['B', '=', '2']]) [(['A'], ['3']), (['C'], ['4'])]

theorem override_once :
    effective ['A'] overridden = some ['3'] ∧ effective ['B'] overridden = some ['2'] := by
  have hs : ∀ kv ∈ [(['A'], ['3']), (['C'], ['4'])], IsKey kv.1 := by
    intro kv hm
    rcases mem_pair.mp hm with rfl | rfl <;> exact ⟨by decide, by decide⟩
  obtain ⟨hown, hother⟩ := env_overrides_iff (imageWith [['A', '=', '1'], ['B', '=', '2']]) hs
    (by decide)
  refine ⟨hown.mpr ?_ (['A'], ['3']) (.head _), (hother ['B'] (by decide)).trans ?_⟩
  · intro kv hm v hv
    rcases mem_pair.mp hm with rfl | rfl <;> cases hv
  · rfl

/-- The image has the key twice, and its second entry is left to win. -/
theorem override_lost : effective ['A'] (workloadEnv (imageWith [['A', '=', '1'], ['A', '=', '2']])
    [(['A'], ['3'])]) = some ['2'] := by
  rw [workloadEnv_eq, effective_childEnv, sortedEnv, mergeSort_singleton]
  decide

end Craftling.Environment
