import Mathlib

namespace Craftling.Effects
open List

theorem forall₂_of_mem_left {R : α → β → Prop} (h : List.Forall₂ R xs ys) (hx : x ∈ xs) :
    ∃ y ∈ ys, R x y := by
  induction h with
  | nil => exact absurd hx not_mem_nil
  | cons hxy _ ih =>
    rcases mem_cons.mp hx with rfl | hx
    · exact ⟨_, mem_cons_self .., hxy⟩
    · obtain ⟨y, hy, hR⟩ := ih hx
      exact ⟨y, mem_cons_of_mem _ hy, hR⟩

theorem forall₂_of_mem_right {R : α → β → Prop} (h : List.Forall₂ R xs ys) (hy : y ∈ ys) :
    ∃ x ∈ xs, R x y :=
  forall₂_of_mem_left h.flip hy

theorem map_eq_of_forall₂ (h : List.Forall₂ (fun x y => g y = f x) xs ys) :
    ys.map g = xs.map f := by
  induction h with
  | nil => rfl
  | cons hx _ ih => rw [map_cons, map_cons, hx, ih]

theorem eq_map_of_forall₂ (h : List.Forall₂ (fun x y => y = f x) xs ys) : ys = xs.map f := by
  induction h with
  | nil => rfl
  | cons hx _ ih => rw [hx, ih, map_cons]

theorem countP_eq_of_forall₂ {R : α → β → Prop} (h : List.Forall₂ R xs ys)
    (hp : ∀ x y, R x y → p x = q y) : xs.countP p = ys.countP q := by
  induction h with
  | nil => rfl
  | cons hx _ ih => rw [countP_cons, countP_cons, hp _ _ hx, ih]

theorem bind_eq_ok {f : α → Except ε β} : x >>= f = .ok b ↔ ∃ a, x = .ok a ∧ f a = .ok b := by
  cases x with
  | error e =>
    constructor
    · intro h
      cases h
    · rintro ⟨a, ha, _⟩
      cases ha
  | ok a =>
    constructor
    · intro h
      exact ⟨a, rfl, h⟩
    · rintro ⟨a', ha, h⟩
      cases ha
      exact h

theorem exists_of_isOk {x : Except ε α} (h : x.isOk = true) : ∃ a, x = .ok a := by
  cases x with
  | error e => cases h
  | ok a => exact ⟨a, rfl⟩

theorem mapError_eq_ok {x : Except ε α} {f : ε → ε'} : x.mapError f = .ok a ↔ x = .ok a := by
  cases x with
  | error e =>
    constructor
    · intro h
      cases h
    · intro h
      cases h
  | ok a' =>
    constructor
    · intro h
      cases h
      rfl
    · intro h
      cases h
      rfl

theorem forM_eq_ok {f : α → Except ε PUnit} {l : List α} (h : l.forM f = .ok ⟨⟩) :
    ∀ x ∈ l, f x = .ok ⟨⟩ := by
  induction l with
  | nil => nofun
  | cons y l ih =>
    rw [List.forM] at h
    obtain ⟨⟨⟩, hy, hr⟩ := bind_eq_ok.mp h
    intro x hx
    rcases mem_cons.mp hx with rfl | hx
    · exact hy
    · exact ih hr x hx

theorem mapM_eq_ok {f : α → Except ε β} {l : List α} (h : l.mapM f = .ok ys) :
    List.Forall₂ (fun x y => f x = .ok y) l ys := by
  induction l generalizing ys with
  | nil =>
    cases h
    exact .nil
  | cons x l ih =>
    rw [mapM_cons] at h
    obtain ⟨y, hy, h⟩ := bind_eq_ok.mp h
    obtain ⟨rest, hr, he⟩ := bind_eq_ok.mp h
    cases he
    exact .cons hy (ih hr)

/-- What holds at the start and is kept by each step holds of what has been gone through. -/
theorem foldlM_invariant {f : σ → α → Except ε σ} {I : List α → σ → Prop} {l : List α} (hs : I [] s)
    (hst : ∀ done x rest s s', l = done ++ x :: rest → I done s → f s x = .ok s' → I (done ++ [x])
      s') (h : l.foldlM f s = .ok s') : I l s' := by
  suffices ∀ done rest s, l = done ++ rest → I done s → rest.foldlM f s = .ok s' → I l s' from
    this [] l s rfl hs h
  intro done rest
  induction rest generalizing done with
  | nil =>
    intro s hl hI h
    rw [append_nil] at hl
    cases h
    rw [hl]
    exact hI
  | cons x rest ih =>
    intro s hl hI h
    rw [foldlM_cons] at h
    obtain ⟨s1, hx, hr⟩ := bind_eq_ok.mp h
    refine ih (done ++ [x]) s1 ?_ (hst done x rest s s1 hl hI hx) hr
    rw [hl, append_assoc, singleton_append]

theorem foldlM_total {f : σ → α → Except ε σ} (h : ∀ s x, ∃ s', f s x = .ok s') (l : List α) (s : σ) :
    ∃ s', l.foldlM f s = .ok s' := by
  induction l generalizing s with
  | nil => exact ⟨s, rfl⟩
  | cons x l ih =>
    obtain ⟨s1, hx⟩ := h s x
    obtain ⟨s', hs'⟩ := ih s1
    refine ⟨s', ?_⟩
    rw [foldlM_cons]
    exact bind_eq_ok.mpr ⟨s1, hx, hs'⟩

/-- Data goes through a buffer of `n` places. As often as the buffer is full it is handed on; what
is left in it comes back. -/
def feed (n : Nat) (hand : σ → List α → Except ε σ) (s : σ) (buf p : List α) :
    Except ε (σ × List α) :=
  if p = [] ∨ n ≤ buf.length then .ok (s, buf)
  else if (buf ++ p.take (n - buf.length)).length = n then do
    let s ← hand s (buf ++ p.take (n - buf.length))
    feed n hand s [] (p.drop (n - buf.length))
  else feed n hand s (buf ++ p.take (n - buf.length)) (p.drop (n - buf.length))
termination_by p.length
decreasing_by
  all_goals
    rename_i h _
    have hp : 0 < p.length := length_pos_iff.mpr fun hp => h (.inl hp)
    rw [length_drop]
    omega

theorem feed_invariant {n : Nat} {hand : σ → List α → Except ε σ} {I : σ → List α → Prop}
    (hh : ∀ s done b s', I s done → b.length = n → hand s b = .ok s' → I s' (done ++ b))
    {s s' : σ} {buf buf' p done : List α} (hb : buf.length < n) (hI : I s done)
    (h : feed n hand s buf p = .ok (s', buf')) :
    ∃ done', I s' done' ∧ done' ++ buf' = done ++ buf ++ p ∧ buf'.length < n := by
  fun_induction feed n hand s buf p generalizing done with
  | case1 s buf p he =>
    cases h
    have hp : p = [] := he.resolve_right (by omega)
    exact ⟨done, hI, by rw [hp, append_nil], hb⟩
  | case2 s buf p hm hf ih =>
    obtain ⟨s1, hs1, hr⟩ := bind_eq_ok.mp h
    have hl : 0 < n := by omega
    obtain ⟨done', hI', heq, hb'⟩ := ih s1 hl (hh _ _ _ _ hI hf hs1) hr
    refine ⟨done', hI', ?_, hb'⟩
    rw [heq, append_nil, ← append_assoc, append_assoc _ (p.take _), take_append_drop]
  | case3 s buf p hm hf ih =>
    have hl : (buf ++ p.take (n - buf.length)).length < n := by
      rw [length_append, length_take] at hf ⊢
      omega
    obtain ⟨done', hI', heq, hb'⟩ := ih hl hI h
    refine ⟨done', hI', ?_, hb'⟩
    rw [heq, ← append_assoc, append_assoc _ (p.take _), take_append_drop]

variable {n : Nat}

theorem feed_total {hand : σ → List α → Except ε σ} {P : σ → Prop}
    (hh : ∀ s b, P s → b.length = n → ∃ s', hand s b = .ok s' ∧ P s') (hs : P s) (buf p : List α) :
    ∃ x, feed n hand s buf p = .ok x := by
  fun_induction feed n hand s buf p with
  | case1 s buf p he => exact ⟨_, rfl⟩
  | case2 s buf p hm hf ih =>
    obtain ⟨s', hs', hP⟩ := hh s _ hs hf
    obtain ⟨x, hx⟩ := ih s' hP
    exact ⟨x, bind_eq_ok.mpr ⟨s', hs', hx⟩⟩
  | case3 s buf p hm hf ih => exact ih hs

theorem feed_slide {hand : σ → List α → Except ε σ} {s : σ} (h : (buf ++ a).length < n) (b : List α) :
    feed n hand s buf (a ++ b) = feed n hand s (buf ++ a) b := by
  rw [length_append] at h
  by_cases ha : a = []
  · rw [ha, nil_append, append_nil]
  by_cases hb : b = []
  · subst hb
    rw [append_nil, feed, if_neg (by simp [ha]; omega), take_of_length_le (by omega),
      drop_of_length_le (by omega), length_append, if_neg (by omega)]
  have ht : (a ++ b).take (n - buf.length) = a ++ b.take (n - (buf ++ a).length) := by
    rw [take_append, take_of_length_le (by omega), length_append]
    congr 2
    omega
  have hd : (a ++ b).drop (n - buf.length) = b.drop (n - (buf ++ a).length) := by
    rw [drop_append, drop_of_length_le (by omega), nil_append, length_append]
    congr 1
    omega
  rw [feed, if_neg (by simp [ha]; omega), ht, hd, ← append_assoc]
  conv_rhs => rw [feed, if_neg (by simp [hb]; omega)]

theorem feed_append (hb : buf.length < n) (a b : List α) :
    feed n hand s buf (a ++ b) = feed n hand s buf a >>= fun x => feed n hand x.1 x.2 b := by
  fun_induction feed n hand s buf a with
  | case1 s buf a he =>
    rw [he.resolve_right (by omega), nil_append]
    rfl
  | case2 s buf a hm hf ih =>
    have hl : n - buf.length ≤ a.length := by
      rw [length_append, length_take] at hf
      omega
    have hn : ¬(a ++ b = [] ∨ n ≤ buf.length) := by
      simp only [append_eq_nil_iff]
      exact fun h => h.elim (fun h => hm (.inl h.1)) (fun h => hm (.inr h))
    rw [feed, if_neg hn, take_append_of_le_length hl, drop_append_of_le_length hl,
      if_pos hf, bind_assoc]
    exact bind_congr fun s' => ih s' (Nat.lt_of_le_of_lt (Nat.zero_le _) hb)
  | case3 s buf a hm hf ih =>
    have hl : a.length < n - buf.length := by
      rw [length_append, length_take] at hf
      omega
    have ha : (buf ++ a).length < n := by
      rw [length_append]
      omega
    have hk : feed n hand s (buf ++ a) [] = .ok (s, buf ++ a) := by rw [feed, if_pos (.inl rfl)]
    rw [take_of_length_le (Nat.le_of_lt hl), drop_of_length_le (Nat.le_of_lt hl), feed_slide ha, hk]
    rfl

theorem feed_map {hand : σ → List α → Except ε σ} (hf : ∀ s b, hand (f s) b = (hand s b).map f)
    (s : σ) (buf p : List α) :
    feed n hand (f s) buf p = (feed n hand s buf p).map fun x => (f x.1, x.2) := by
  fun_induction feed n hand s buf p with
  | case1 s buf p he =>
    rw [feed, if_pos he]
    rfl
  | case2 s buf p hm hfu ih =>
    rw [feed, if_neg hm, if_pos hfu, hf]
    cases hh : hand s (buf ++ p.take (n - buf.length)) with
    | error e => rfl
    | ok s' => exact ih s'
  | case3 s buf p hm hfu ih =>
    rw [feed, if_neg hm, if_neg hfu]
    exact ih

end Craftling.Effects
