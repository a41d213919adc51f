import Craftling.Dataplane.Frames

namespace Craftling.Dataplane
open Effects List

/-- The 16-bit numbers that a checksum is over. A last odd byte is the higher half of one. -/
def words : Bytes → List Nat
  | a :: b :: bs => beNat [a, b] :: words bs
  | [a] => [beNat [a, 0]]
  | [] => []

def Valid (ws : List Nat) : Prop := ws.foldl onesAdd 0 = 0xffff

variable {ws ws' : List Nat} {f f' : Frame} {o : L4off} {s n off m : Nat}

theorem foldl_onesAdd (hw : ∀ w ∈ ws, w ≤ 0xffff) (ha : acc ≤ 0xffff) :
    ws.foldl onesAdd acc ≤ 0xffff ∧ ws.foldl onesAdd acc % 65535 = (acc + ws.sum) % 65535 ∧
      (ws.foldl onesAdd acc = 0 ↔ acc + ws.sum = 0) := by
  induction ws generalizing acc with
  | nil => simpa using ha
  | cons w ws ih =>
    have hw0 := hw w (.head _)
    have ha' : onesAdd acc w ≤ 0xffff := by
      unfold onesAdd
      omega
    have hi := ih (fun x hx => hw x (.tail _ hx)) ha'
    rw [foldl_cons, sum_cons]
    unfold onesAdd at hi ⊢
    omega

theorem valid_iff (hw : ∀ w ∈ ws, w ≤ 0xffff) : Valid ws ↔ ws.sum % 65535 = 0 ∧ ws.sum ≠ 0 := by
  obtain ⟨hl, hm, h0⟩ := foldl_onesAdd hw (Nat.zero_le _)
  unfold Valid
  rw [Nat.zero_add] at hm h0
  omega

theorem words_le (bs : Bytes) : ∀ w ∈ words bs, w ≤ 0xffff := by
  have h (a b : UInt8) : beNat [a, b] ≤ 0xffff :=
    Nat.le_of_lt_succ (show _ < 256 ^ 2 from beNat_lt [a, b])
  fun_induction words bs with
  | case1 a b bs ih => exact forall_mem_cons.mpr ⟨h a b, ih⟩
  | case2 a => exact forall_mem_cons.mpr ⟨h a 0, by simp⟩
  | case3 => simp

theorem words_append (h : a.length % 2 = 0) (b : Bytes) : words (a ++ b) = words a ++ words b := by
  fun_induction words a with
  | case1 x y a ih =>
    rw [cons_append, cons_append, words, ih (by simp at h; omega), cons_append]
  | case2 => cases h
  | case3 => rfl

theorem leNat_inj (hl : a.length = b.length) (h : leNat a = leNat b) : a = b := by
  induction a generalizing b with
  | nil => exact (length_eq_zero_iff.mp hl.symm).symm
  | cons x a ih =>
    cases b with
    | nil => cases hl
    | cons y b =>
      have hx := x.toNat_lt
      have hy := y.toNat_lt
      simp only [leNat] at h
      rw [ih (Nat.succ.inj hl) (by omega), UInt8.toNat.inj (show x.toNat = y.toNat by omega)]

def wordSum (f : Frame) (s n : Nat) : Nat := (words (slice f s n)).sum

theorem wordSum_same (h : SameOutside places f f')
    (ha : ∀ p ∈ places, s + n ≤ p.1 ∨ p.1 + p.2 ≤ s) : wordSum f' s n = wordSum f s n := by
  have hs : slice f' s n = slice f s n := by
    refine reverse_inj.mp (leNat_inj ?_ (h.2 s n ha))
    simp [slice, h.1]
  rw [wordSum, hs, wordSum]

theorem wordSum_split (ha : a % 2 = 0) (hm : m % 2 = 0) (hf : s + a + m ≤ f.length) (b : Nat) :
    wordSum f s (a + m + b) = wordSum f s a + wordSum f (s + a) m + wordSum f (s + a + m) b := by
  have hs : slice f s (a + m + b) = slice f s a ++ (slice f (s + a) m ++ slice f (s + a + m) b) := by
    simp only [slice, take_add, drop_drop, Nat.add_assoc]
  have hl : (slice f s a).length = a := by
    simp [slice]
    omega
  have hl' : (slice f (s + a) m).length = m := by
    simp [slice]
    omega
  rw [wordSum, hs, words_append (by omega), words_append (by omega), sum_append, sum_append,
    ← Nat.add_assoc]
  rfl

theorem wordSum_changed (h : SameOutside [(off, m)] f f') (hs : s ≤ off) (ha : (off - s) % 2 = 0)
    (hm : m % 2 = 0) (hn : off + m ≤ s + n) (hf : off + m ≤ f.length) :
    wordSum f' s n + wordSum f off m = wordSum f s n + wordSum f' off m := by
  obtain ⟨a, rfl⟩ := Nat.exists_eq_add_of_le hs
  obtain ⟨b, rfl⟩ : ∃ b, n = a + m + b := ⟨n - (a + m), by omega⟩
  rw [Nat.add_sub_cancel_left] at ha
  have h1 : wordSum f' s a = wordSum f s a := wordSum_same h (by simp)
  have h2 : wordSum f' (s + a + m) b = wordSum f (s + a + m) b := wordSum_same h (by simp)
  rw [wordSum_split ha hm hf, wordSum_split ha hm (h.1 ▸ hf), h1, h2]
  omega

def halves (n : Nat) : Nat := n / 0x10000 + n % 0x10000

theorem wordSum_field (hm : m = 2 ∨ m = 4) (h : off + m ≤ f.length) :
    wordSum f off m = halves (word f off m) := by
  have hl : (slice f off m).length = m := by
    simp [slice]
    omega
  rw [wordSum, word]
  generalize slice f off m = bs at hl
  rcases hm with rfl | rfl
  · obtain ⟨a, b, rfl⟩ := length_eq_two.mp hl
    have := beNat_lt [a, b]
    simp [words, halves] at this ⊢
    omega
  rcases bs with _ | ⟨a, _ | ⟨b, _ | ⟨c, _ | ⟨d, _ | _⟩⟩⟩⟩ <;> simp at hl
  have := a.toNat_lt
  have := b.toNat_lt
  have := c.toNat_lt
  have := d.toNat_lt
  simp [words, halves, beNat, leNat]
  omega

theorem csumReplace_spec (hc : c ≤ 0xffff) (ho : old ≤ 0xffff) (hn : new ≤ 0xffff) :
    csumReplace c old new ≤ 0xffff ∧ (csumReplace c old new + new) % 65535 = (c + old) % 65535 := by
  unfold csumReplace onesAdd
  omega

theorem csumAfter_spec (hm : m = 2 ∨ m = 4) (hc : c ≤ 0xffff) (ho : old < 256 ^ m)
    (hn : new < 256 ^ m) :
    (csumAfter m c old new + halves new) % 65535 = (c + halves old) % 65535 := by
  obtain ⟨hl, hs⟩ := csumReplace_spec hc (show old % 0x10000 ≤ 0xffff by omega)
    (show new % 0x10000 ≤ 0xffff by omega)
  unfold csumAfter halves
  rcases hm with rfl | rfl
  · rw [if_neg (by decide)]
    omega
  have hs' := csumReplace_spec hl (show old / 0x10000 ≤ 0xffff by omega)
    (show new / 0x10000 ≤ 0xffff by omega)
  rw [if_pos rfl]
  omega

/-- A checksum goes to zero where taking the old number out and the new one in leaves nothing, modulo
65535. All ones with all ones taken out and zero put in stay all ones. -/
theorem csumReplace_eq_zero (hc : c ≤ 0xffff) (ho : old ≤ 0xffff) (hn : new ≤ 0xffff) :
    csumReplace c old new = 0 ↔
      c + old ≡ new [MOD 65535] ∧ ¬(c = 0xffff ∧ old = 0xffff ∧ new = 0) := by
  unfold csumReplace onesAdd Nat.ModEq
  omega

theorem csumReplace_eq_ones (hc : c ≤ 0xffff) (ho : old ≤ 0xffff) (hn : new ≤ 0xffff) :
    csumReplace c old new = 0xffff ↔ c = 0xffff ∧ old = 0xffff ∧ new = 0 := by
  unfold csumReplace onesAdd
  omega

def segLen (o : L4off) : Nat := o.totLen - (o.l4Off - 14)

def ipWords (f : Frame) (o : L4off) : List Nat := words (slice f 14 (o.l4Off - 14))

def l4Words (f : Frame) (o : L4off) : List Nat :=
  words (slice f 26 8) ++ [o.proto, segLen o] ++ words (slice f o.l4Off (segLen o))

theorem sum_l4Words (f : Frame) (o : L4off) : (l4Words f o).sum =
    wordSum f 26 8 + (o.proto + segLen o) + wordSum f o.l4Off (segLen o) := by
  simp [l4Words, wordSum, Nat.add_assoc]

def l4Csum (f : Frame) (o : L4off) : Nat := word f (l4CsumOff o) 2

def Absent (f : Frame) (o : L4off) : Prop := o.proto = 17 ∧ l4Csum f o = 0

structure Room (f : Frame) (o : L4off) : Prop where
  header : 34 ≤ o.l4Off
  ports : o.l4Off + 4 ≤ l4CsumOff o
  even : (l4CsumOff o - o.l4Off) % 2 = 0
  fits : l4CsumOff o + 2 ≤ f.length
  segment : l4CsumOff o + 2 ≤ o.l4Off + segLen o

theorem Shaped.room (h : Shaped f o) (hs : l4Len o.proto ≤ segLen o) : Room f o := by
  obtain ⟨hp, hf⟩ := h.csumOff
  refine ⟨h.header, hp, ?_, hf, ?_⟩ <;>
  · unfold l4CsumOff
    unfold l4Len at hs
    split at hs
    · rw [if_pos (by assumption)]
      omega
    · rw [if_neg (by assumption)]
      omega

/-- The checksum becomes `c` and the sum stays, unless there is no checksum. -/
def Moved (f f' : Frame) (o : L4off) (c : Nat) : Prop :=
  Absent f o ∧ Absent f' o ∨ ¬Absent f o ∧ l4Csum f' o = c ∧
    (l4Words f' o).sum % 65535 = (l4Words f o).sum % 65535

theorem Moved.refl (f : Frame) (o : L4off) : Moved f f o (l4Csum f o) := by
  by_cases h : Absent f o
  · exact .inl ⟨h, h⟩
  · exact .inr ⟨h, rfl, rfl⟩

theorem replaceL4Csum_moved (h : Room f o) (hc : l4Csum f1 o = l4Csum f o)
    (hl : f1.length = f.length) (hm : m = 2 ∨ m = 4) (ho : old < 256 ^ m) (hn : new < 256 ^ m)
    (hsum : (l4Words f1 o).sum + halves old = (l4Words f o).sum + halves new) :
    ∃ f', replaceL4Csum f1 o old new m = some f' ∧ SameOutside [(l4CsumOff o, 2)] f1 f' ∧
      Moved f f' o (csumAfter m (l4Csum f o) old new) := by
  obtain ⟨hhe, hp, he, hf, hseg⟩ := h
  unfold replaceL4Csum
  by_cases hab : Absent f o
  · rw [if_pos (by rw [protoUDP]; exact ⟨hab.1, hc.trans hab.2⟩)]
    exact ⟨f1, rfl, .refl _ f1, .inl ⟨hab, hab.1, hc.trans hab.2⟩⟩
  rw [if_neg fun hz => hab ⟨hz.1, hc.symm.trans hz.2⟩]
  obtain ⟨f', hr, hs, hv⟩ := replaceCsum_spec f1 (l4CsumOff o) (by omega) old new m
  have hv' : l4Csum f' o = csumAfter m (l4Csum f o) old new := hc ▸ hv
  refine ⟨f', hr, hs, .inr ⟨hab, hv', ?_⟩⟩
  have hch := wordSum_changed hs (show o.l4Off ≤ _ by omega) he rfl hseg (by omega)
  rw [wordSum_field (.inl rfl) (by omega), wordSum_field (.inl rfl) (by rw [hs.1]; omega)] at hch
  have hp : wordSum f' 26 8 = wordSum f1 26 8 := wordSum_same hs (by simp; omega)
  have hcs := csumAfter_spec hm (Nat.le_of_lt_succ (word_lt f (l4CsumOff o) 2)) ho hn
  have hb := word_lt f' (l4CsumOff o) 2
  have hb' := word_lt f1 (l4CsumOff o) 2
  rw [sum_l4Words] at hsum ⊢
  simp only [l4Csum, halves] at hc hv' hch hcs hsum ⊢
  omega

def csumMoved (m c old new : Nat) : Nat := if old = new then c else csumAfter m c old new

/-- The new address cancels what the checksum `c` holds for the old one. -/
def AddrCancels (c : Nat) (old new : Addr) : Prop :=
  old ≠ new ∧ c + halves old.toNat ≡ halves new.toNat [MOD 65535] ∧
    ¬(c = 0xffff ∧ old = 0xffffffff ∧ new = 0)

/-- The new port cancels what the checksum holds for the old one, once the addresses are changed. -/
def PortCancels (c : Nat) (old new : Addr) (oldPort newPort : Port) : Prop :=
  oldPort ≠ newPort ∧
    c + halves old.toNat + oldPort.toNat ≡ halves new.toNat + newPort.toNat [MOD 65535] ∧
    ¬(c + halves old.toNat ≡ halves new.toNat [MOD 65535] ∧ oldPort = 0xffff ∧ newPort = 0)

theorem csumMoved_addr (hc : c ≤ 0xffff) (hp : c ≠ 0) (old new : Addr) :
    csumMoved 4 c old.toNat new.toNat ≤ 0xffff ∧
      csumMoved 4 c old.toNat new.toNat + halves new.toNat ≡ c + halves old.toNat [MOD 65535] ∧
      (csumMoved 4 c old.toNat new.toNat = 0 ↔ AddrCancels c old new) := by
  have hol := old.toNat_lt
  have hnl := new.toNat_lt
  unfold csumMoved
  split
  · rename_i he
    obtain rfl : old = new := UInt32.toNat.inj he
    refine ⟨hc, rfl, fun h => absurd h hp, fun h => absurd rfl h.1⟩
  rename_i hne
  have hones : (c = 0xffff ∧ old = 0xffffffff ∧ new = 0) ↔
      c = 0xffff ∧ old.toNat = 0xffffffff ∧ new.toNat = 0 := by
    rw [← UInt32.toNat_inj, ← UInt32.toNat_inj]
    rfl
  obtain ⟨hl, hs⟩ := csumReplace_spec hc (show old.toNat % 0x10000 ≤ 0xffff by omega)
    (show new.toNat % 0x10000 ≤ 0xffff by omega)
  have hlow := csumReplace_eq_ones hc (show old.toNat % 0x10000 ≤ 0xffff by omega)
    (show new.toNat % 0x10000 ≤ 0xffff by omega)
  have hhigh : old.toNat / 0x10000 ≤ 0xffff ∧ new.toNat / 0x10000 ≤ 0xffff := by omega
  refine ⟨(csumReplace_spec hl hhigh.1 hhigh.2).1,
    csumAfter_spec (.inr rfl) hc hol hnl, ?_⟩
  have hz := csumReplace_eq_zero hl hhigh.1 hhigh.2
  rw [AddrCancels, hones, csumAfter, if_pos rfl, hz, hlow]
  have hdiff : old ≠ new := fun he => hne (congrArg UInt32.toNat he)
  simp only [hdiff, ne_eq, not_false_eq_true, true_and, Nat.ModEq, halves] at hs ⊢
  omega

theorem csumMoved_port (hc : c ≤ 0xffff) (hp : c ≠ 0) (h : c + n' ≡ n [MOD 65535])
    (old new : Port) : csumMoved 2 c old.toNat new.toNat = 0 ↔ old ≠ new ∧
      n + old.toNat ≡ n' + new.toNat [MOD 65535] ∧
      ¬(n ≡ n' [MOD 65535] ∧ old = 0xffff ∧ new = 0) := by
  have hol := old.toNat_lt
  have hnl := new.toNat_lt
  unfold csumMoved
  split
  · rename_i he
    obtain rfl : old = new := UInt16.toNat.inj he
    exact ⟨fun h => absurd h hp, fun h => absurd rfl h.1⟩
  rename_i hne
  have hdiff : old ≠ new := fun he => hne (congrArg UInt16.toNat he)
  have hones : (old = 0xffff ∧ new = 0) ↔ old.toNat = 0xffff ∧ new.toNat = 0 := by
    rw [← UInt16.toNat_inj, ← UInt16.toNat_inj]
    rfl
  rw [csumAfter, if_neg (by decide), Nat.mod_eq_of_lt hol, Nat.mod_eq_of_lt hnl,
    csumReplace_eq_zero hc (Nat.le_of_lt_succ hol) (Nat.le_of_lt_succ hnl), hones]
  simp only [hdiff, ne_eq, not_false_eq_true, true_and, Nat.ModEq] at h ⊢
  generalize old.toNat = a at *
  generalize new.toNat = b at *
  omega

theorem setAddr_moved (h : Room f o) (hi : o.ipOff = 14) (ha : off = 26 ∨ off = 30)
    (ho : word f off 4 = old.toNat) (new : Addr) :
    ∃ f', setAddr f o off old new = some f' ∧
      SameOutside [(off, 4), (24, 2), (l4CsumOff o, 2)] f f' ∧
      (ipWords f' o).sum % 65535 = (ipWords f o).sum % 65535 ∧
      Moved f f' o (csumMoved 4 (l4Csum f o) old.toNat new.toNat) := by
  obtain ⟨hhe, hp, -, hf, -⟩ := id h
  by_cases hne : old = new
  · subst hne
    rw [csumMoved, if_pos rfl]
    exact ⟨f, if_pos rfl, .refl _ f, rfl, Moved.refl f o⟩
  obtain ⟨f1, f2, hr, hs1, hw, hs2, hv⟩ :=
    setAddr_steps hi (show 34 ≤ f.length by omega) (show off + 4 ≤ 34 by omega) hne
  have hl1 := hs1.1
  have hl2 := hs2.1
  have hc : l4Csum f2 o = l4Csum f o :=
    (hs2.2 _ _ (by simp; omega)).trans (hs1.2 _ _ (by simp; omega))
  have hfield := wordSum_field (.inr rfl) (show off + 4 ≤ f.length by omega)
  have hfield1 := wordSum_field (.inr rfl) (show off + 4 ≤ f1.length by omega)
  rw [ho] at hfield
  rw [hw] at hfield1
  obtain ⟨f3, hl4, hs3, hm⟩ := replaceL4Csum_moved h hc (hl2.trans hl1) (.inr rfl) old.toNat_lt
    new.toNat_lt (by
      have hch := wordSum_changed hs1 (show 26 ≤ off by omega) (by omega) rfl
        (show off + 4 ≤ 26 + 8 by omega) (by omega)
      have ha2 : wordSum f2 26 8 = wordSum f1 26 8 := wordSum_same hs2 (by simp)
      have hg1 : wordSum f1 o.l4Off (segLen o) = wordSum f o.l4Off (segLen o) :=
        wordSum_same hs1 (by simp; omega)
      have hg2 : wordSum f2 o.l4Off (segLen o) = wordSum f1 o.l4Off (segLen o) :=
        wordSum_same hs2 (by simp; omega)
      rw [sum_l4Words, sum_l4Words]
      omega)
  refine ⟨f3, hr.trans hl4, ?_, ?_, ?_⟩
  · refine (hs1.mono ?_).trans ((hs2.mono ?_).trans (hs3.mono ?_)) <;> simp
  · have h1 := wordSum_changed hs1 (show 14 ≤ off by omega) (by omega) rfl
      (show off + 4 ≤ 14 + (o.l4Off - 14) by omega) (by omega)
    have h2 := wordSum_changed hs2 (show 14 ≤ 24 by omega) rfl rfl
      (show 24 + 2 ≤ 14 + (o.l4Off - 14) by omega) (by omega)
    rw [wordSum_field (.inl rfl) (by omega), wordSum_field (.inl rfl) (by omega)] at h2
    have h3 : wordSum f3 14 (o.l4Off - 14) = wordSum f2 14 (o.l4Off - 14) :=
      wordSum_same hs3 (by simp; omega)
    have hcs := csumAfter_spec (.inr rfl) (Nat.le_of_lt_succ (word_lt f1 24 2)) old.toNat_lt
      new.toNat_lt
    have hb := word_lt f1 24 2
    have hb' := word_lt f2 24 2
    change wordSum f3 14 _ % 65535 = wordSum f 14 _ % 65535
    simp only [halves] at hfield hfield1 h2 hcs
    omega
  · rw [csumMoved, if_neg fun he => hne (UInt32.toNat.inj he)]
    exact hm

theorem setPort_moved (h : Room f o) (ha : off = o.l4Off ∨ off = o.l4Off + 2)
    (ho : word f off 2 = old.toNat) (new : Port) :
    ∃ f', setPort f o off old new = some f' ∧ SameOutside [(off, 2), (l4CsumOff o, 2)] f f' ∧
      Moved f f' o (csumMoved 2 (l4Csum f o) old.toNat new.toNat) := by
  obtain ⟨hhe, hp, -, hf, hseg⟩ := id h
  by_cases hne : old = new
  · subst hne
    rw [csumMoved, if_pos rfl]
    exact ⟨f, if_pos rfl, .refl _ f, Moved.refl f o⟩
  obtain ⟨f1, hr, hs1, hw⟩ := setPort_steps (o := o) (show off + 2 ≤ f.length by omega) hne
  have hl1 := hs1.1
  have hc : l4Csum f1 o = l4Csum f o := hs1.2 _ _ (by simp; omega)
  obtain ⟨f2, hl4, hs2, hm⟩ := replaceL4Csum_moved h hc hl1 (.inl rfl) old.toNat_lt new.toNat_lt (by
      have hch := wordSum_changed hs1 (show o.l4Off ≤ off by omega) (by omega) rfl
        (show off + 2 ≤ o.l4Off + segLen o by omega) (by omega)
      rw [wordSum_field (.inl rfl) (by omega), wordSum_field (.inl rfl) (by omega), ho, hw] at hch
      have ha1 : wordSum f1 26 8 = wordSum f 26 8 := wordSum_same hs1 (by simp; omega)
      rw [sum_l4Words, sum_l4Words]
      omega)
  refine ⟨f2, hr.trans hl4, ?_, ?_⟩
  · refine (hs1.mono ?_).trans (hs2.mono ?_) <;> simp
  · rw [csumMoved, if_neg fun he => hne (UInt16.toNat.inj he)]
    exact hm

theorem valid_of_mod (hl : ∀ w ∈ ws, w ≤ 0xffff) (hl' : ∀ w ∈ ws', w ≤ 0xffff) (hv : Valid ws)
    (hm : ws'.sum % 65535 = ws.sum % 65535) (hn : ws'.sum ≠ 0) : Valid ws' :=
  (valid_iff hl').mpr ⟨hm.trans ((valid_iff hl).mp hv).1, hn⟩

theorem l4Words_le (f : Frame) (hp : o.proto = 6 ∨ o.proto = 17) (ht : o.totLen < 0x10000) :
    ∀ w ∈ l4Words f o, w ≤ 0xffff := by
  have hs : segLen o ≤ 0xffff := Nat.le_trans (Nat.sub_le ..) (Nat.le_of_lt_succ ht)
  simp only [l4Words, forall_mem_append, forall_mem_cons]
  exact ⟨⟨words_le _, by omega, hs, by simp⟩, words_le _⟩

/-- The checksums of a packet are valid; that of UDP may be absent. -/
structure Checked (f : Frame) (o : L4off) : Prop where
  segment : l4Len o.proto ≤ segLen o
  ip : Valid (ipWords f o)
  l4 : Absent f o ∨ Valid (l4Words f o)

/-- They are valid in the new frame, where an absent one is absent and a present one present. -/
structure StaysChecked (f f' : Frame) (o : L4off) : Prop where
  ip : Valid (ipWords f' o)
  absent : Absent f o → Absent f' o
  present : ¬Absent f o → ¬Absent f' o ∧ Valid (l4Words f' o)

theorem not_cancels_iff (hc : c ≤ 0xffff) (hp : c ≠ 0) (old new : Addr) (oldPort newPort : Port) :
    ¬AddrCancels c old new ∧ ¬PortCancels c old new oldPort newPort ↔
      csumMoved 4 c old.toNat new.toNat ≠ 0 ∧
        csumMoved 2 (csumMoved 4 c old.toNat new.toNat) oldPort.toNat newPort.toNat ≠ 0 := by
  obtain ⟨hl, hm, hz⟩ := csumMoved_addr hc hp old new
  rw [← hz]
  refine and_congr_right fun hne => not_congr ?_
  rw [csumMoved_port hl hne hm]
  rfl

/-- Checksums stay valid, and a UDP checksum present, exactly if neither the new address nor the new
port cancels what it holds for the old one. -/
theorem checksums_stay_iff (hs : Shaped f o) (h : Checked f o)
    (ha : off = 26 ∨ off = 30) (ho : word f off 4 = old.toNat)
    (hp : poff = o.l4Off ∨ poff = o.l4Off + 2) (hpo : word f poff 2 = oldPort.toNat) (new : Addr)
    (newPort : Port) :
    ∃ f', (setAddr f o off old new).bind (setPort · o poff oldPort newPort) = some f' ∧
      (StaysChecked f f' o ↔ (o.proto = 17 → l4Csum f o ≠ 0 →
        ¬AddrCancels (l4Csum f o) old new ∧
          ¬PortCancels (l4Csum f o) old new oldPort newPort)) := by
  have hR := hs.room h.segment
  obtain ⟨hhe, hpc, -, hf, -⟩ := id hR
  have htr := hs.transport
  have ht : o.totLen < 0x10000 := hs.totLen ▸ word_lt f 16 2
  obtain ⟨f1, hs1, hsa1, hip, hm1⟩ := setAddr_moved hR hs.ipOff ha ho new
  have hpo1 : word f1 poff 2 = oldPort.toNat := (hsa1.2 poff 2 (by simp; omega)).trans hpo
  obtain ⟨f2, hs2, hsa2, hm2⟩ := setPort_moved { hR with fits := hsa1.1 ▸ hf } hp hpo1 newPort
  have hvip : Valid (ipWords f2 o) := by
    have hl : f2.length = f.length := hsa2.1.trans hsa1.1
    -- The length of the packet is among the numbers, and not zero.
    have hlen : word f2 16 2 = o.totLen := by
      rw [hsa2.2 _ _ (by simp; omega), hsa1.2 _ _ (by simp; omega), hs.totLen]
    have hsp := wordSum_split rfl rfl (show 14 + 2 + 2 ≤ f2.length by omega) (o.l4Off - 18)
    have hfi := wordSum_field (.inl rfl) (show 16 + 2 ≤ f2.length by omega)
    rw [hlen, halves] at hfi
    rw [show 2 + 2 + (o.l4Off - 18) = o.l4Off - 14 by omega] at hsp
    simp only [Nat.reduceAdd] at hsp
    refine valid_of_mod (words_le _) (words_le _) h.ip ?_ ?_
    · refine Eq.trans ?_ hip
      exact congrArg (· % 65535) (wordSum_same hsa2 (by simp; omega))
    have hseg := hR.segment
    change wordSum f2 14 _ ≠ 0
    unfold segLen at hseg
    omega
  refine ⟨f2, by rw [hs1]; exact hs2, ?_⟩
  have hcancel (hpresent : l4Csum f o ≠ 0) :=
    not_cancels_iff (Nat.le_of_lt_succ (word_lt f (l4CsumOff o) 2)) hpresent old new oldPort newPort
  rcases hm1 with ⟨hab, hab1⟩ | ⟨hab, hc1, hsum1⟩
  · refine ⟨fun _ _ hc => absurd hab.2 hc, fun _ => ⟨hvip, fun _ => ?_, fun hn => absurd hab hn⟩⟩
    exact (hm2.resolve_right fun hn => hn.1 hab1).2
  have hv := h.l4.resolve_left hab
  rcases hm2 with ⟨hab1, hab2⟩ | ⟨hab1, hc2, hsum2⟩
  · refine ⟨fun hk => absurd hab2 (hk.present hab).1, fun hk => ?_⟩
    have hpresent : l4Csum f o ≠ 0 := fun hc => hab ⟨hab1.1, hc⟩
    exact absurd (hc1.symm.trans hab1.2) ((hcancel hpresent).mp (hk hab1.1 hpresent)).1
  have hv2 : Valid (l4Words f2 o) := by
    refine valid_of_mod (l4Words_le f htr ht) (l4Words_le f2 htr ht) hv (hsum2.trans hsum1) ?_
    rw [sum_l4Words]
    omega
  rw [hc1] at hc2
  constructor
  · intro hk hu hpresent
    refine (hcancel hpresent).mpr ⟨fun hc => hab1 ⟨hu, hc1.trans hc⟩, fun hc => ?_⟩
    exact (hk.present hab).1 ⟨hu, hc2.trans hc⟩
  · intro hk
    refine ⟨hvip, fun hn => absurd hn hab, fun _ => ⟨fun hn => ?_, hv2⟩⟩
    have hpresent : l4Csum f o ≠ 0 := fun hc => hab ⟨hn.1, hc⟩
    exact ((hcancel hpresent).mp (hk hn.1 hpresent)).2 (hc2.symm.trans hn.2)

def udpFrame (csum data : Nat) : Frame :=
  replicate 12 0 ++ beBytes 2 etherIP ++ [0x45, 0, 0, 30, 0, 0, 0, 0, 64, 17, 0x46, 0x93] ++
    beBytes 4 0x0A000002 ++ beBytes 4 0xC6336407 ++ beBytes 2 40000 ++ beBytes 2 443 ++
    beBytes 2 10 ++ beBytes 2 csum ++ beBytes 2 data

def udpHeaders : L4off := ⟨14, 34, 17, 40000, 443, 0x0A000002, 0xC6336407, 30⟩

/-- A valid checksum of 0x2d9b stays valid and present. -/
theorem checksums_stay_present : l4Csum (udpFrame 0x2d9b 7) udpHeaders = 0x2d9b ∧ ∃ f',
    (setAddr (udpFrame 0x2d9b 7) udpHeaders 26 0x0A000002 0xC0000201).bind
      (setPort · udpHeaders 34 40000 50000) = some f' ∧
    StaysChecked (udpFrame 0x2d9b 7) f' udpHeaders := by
  have hsum : l4Csum (udpFrame 0x2d9b 7) udpHeaders = 0x2d9b := by decide +kernel
  have hsh : Shaped (udpFrame 0x2d9b 7) udpHeaders := parse_handled_iff.mp (by decide +kernel)
  have hc : Checked (udpFrame 0x2d9b 7) udpHeaders :=
    ⟨by decide, by unfold Valid; decide +kernel, .inr (by unfold Valid; decide +kernel)⟩
  have hp : word (udpFrame 0x2d9b 7) 34 2 = (40000 : Port).toNat := by decide +kernel
  obtain ⟨f', hs, hk⟩ := checksums_stay_iff hsh hc (.inl rfl) hsh.saddr (.inl rfl) hp 0xC0000201
    50000
  refine ⟨hsum, f', hs, hk.mpr fun _ _ => ?_⟩
  rw [hsum, AddrCancels, PortCancels]
  decide

/-- A valid checksum of 0xb7ff becomes zero with the address, and with the port stays so. -/
theorem checksum_lost : Checked (udpFrame 0xb7ff 0x75a2) udpHeaders ∧ ∃ f',
      (setAddr (udpFrame 0xb7ff 0x75a2) udpHeaders 26 0x0A000002 0xC0000201).bind
        (setPort · udpHeaders 34 40000 50000) = some f' ∧ l4Csum f' udpHeaders = 0 := by
  refine ⟨⟨by decide, by unfold Valid; decide +kernel, .inr (by unfold Valid; decide +kernel)⟩, ?_⟩
  exact ⟨_, rfl, by decide +kernel⟩

end Craftling.Dataplane
