import Craftling.Effects.Words
import Craftling.Dataplane.Ipam

namespace Craftling.Dataplane
open Effects Option

abbrev Frame := Bytes

def word (f : Frame) (off n : Nat) : Nat := beNat (slice f off n)

def etherIP : Nat := 0x0800

def etherARP : Nat := 0x0806

def ethLen : Nat := 14

def protoUDP : Nat := 17

structure L4off where
  ipOff : Nat
  l4Off : Nat
  proto : Nat
  sport : Port
  dport : Port
  saddr : Addr
  daddr : Addr
  totLen : Nat
  deriving DecidableEq, Repr

def L4off.zero : L4off := ⟨0, 0, 0, 0, 0, 0, 0, 0⟩

inductive Parsed where
  | handled (o : L4off)
  | pass
  | fragment
  deriving DecidableEq, Repr

def l4Len (proto : Nat) : Nat := if proto = 6 then 20 else 8

/-- The fragment offset is looked at before the lengths of the headers. -/
def parse (f : Frame) : Parsed :=
  if f.length < ethLen then .pass
  else if word f 12 2 ≠ etherIP then .pass
  else if f.length < 34 then .pass
  else
    let proto := word f 23 1
    if proto ≠ 6 ∧ proto ≠ protoUDP then .pass
    else if word f 20 2 &&& 0x1fff ≠ 0 then .fragment
    else
      let ihl := (word f 14 1 &&& 0x0f) * 4
      if ihl < 20 then .pass
      else if f.length < ethLen + ihl + l4Len proto then .pass
      else
        .handled
          { ipOff := ethLen, l4Off := ethLen + ihl, proto := proto
            sport := UInt16.ofNat (word f (ethLen + ihl) 2)
            dport := UInt16.ofNat (word f (ethLen + ihl + 2) 2)
            saddr := UInt32.ofNat (word f 26 4)
            daddr := UInt32.ofNat (word f 30 4)
            totLen := word f 16 2 }

structure Shaped (f : Frame) (o : L4off) : Prop where
  etherType : word f 12 2 = etherIP
  ipOff : o.ipOff = 14
  proto : word f 23 1 = o.proto
  transport : o.proto = 6 ∨ o.proto = 17
  whole : word f 20 2 &&& 0x1fff = 0
  ihl : o.l4Off = 14 + (word f 14 1 &&& 0x0f) * 4
  header : 34 ≤ o.l4Off
  fits : o.l4Off + l4Len o.proto ≤ f.length
  sport : word f o.l4Off 2 = o.sport.toNat
  dport : word f (o.l4Off + 2) 2 = o.dport.toNat
  saddr : word f 26 4 = o.saddr.toNat
  daddr : word f 30 4 = o.daddr.toNat
  totLen : word f 16 2 = o.totLen

theorem length_slice_le (f : Frame) (off n : Nat) : (slice f off n).length ≤ n :=
  List.length_take_le ..

theorem word_lt (f : Frame) (off n : Nat) : word f off n < 256 ^ n :=
  Nat.lt_of_lt_of_le (beNat_lt _) (Nat.pow_le_pow_right (by omega) (length_slice_le f off n))

theorem toNat_word_port (f : Frame) (off : Nat) :
    (UInt16.ofNat (word f off 2)).toNat = word f off 2 := by
  rw [UInt16.toNat_ofNat']
  exact Nat.mod_eq_of_lt (word_lt f off 2)

theorem toNat_word_addr (f : Frame) (off : Nat) :
    (UInt32.ofNat (word f off 4)).toNat = word f off 4 := by
  rw [UInt32.toNat_ofNat']
  exact Nat.mod_eq_of_lt (word_lt f off 4)

variable {off size : Nat}

theorem parse_handled_iff : parse f = .handled o ↔ Shaped f o := by
  constructor
  · intro h
    unfold parse at h
    split at h
    · cases h
    split at h
    · cases h
    split at h
    · cases h
    dsimp only at h
    split at h
    · cases h
    split at h
    · cases h
    split at h
    · cases h
    split at h
    · cases h
    rename_i he _ hp hf hi hfi
    cases h
    exact
      { etherType := Classical.not_not.mp he
        ipOff := rfl
        proto := rfl
        transport := by
          rw [not_and_or, Classical.not_not, Classical.not_not] at hp
          exact hp
        whole := Classical.not_not.mp hf
        ihl := rfl
        header := by simp only [ethLen]; omega
        fits := Nat.le_of_not_lt hfi
        sport := (toNat_word_port f _).symm
        dport := (toNat_word_port f _).symm
        saddr := (toNat_word_addr f _).symm
        daddr := (toNat_word_addr f _).symm
        totLen := rfl }
  · intro h
    have hl : 34 ≤ f.length := by
      have := h.header
      have := h.fits
      omega
    have hl4 : ethLen + (word f 14 1 &&& 0x0f) * 4 = o.l4Off := h.ihl.symm
    have hi := h.header
    have ht : ¬(word f 23 1 ≠ 6 ∧ word f 23 1 ≠ protoUDP) := by
      rw [h.proto, not_and_or, Classical.not_not, Classical.not_not]
      exact h.transport
    unfold parse
    rw [if_neg (by simp only [ethLen]; omega), if_neg (Classical.not_not.mpr h.etherType),
      if_neg (by omega), if_neg ht, if_neg (Classical.not_not.mpr h.whole),
      if_neg (by simp only [ethLen] at hl4; omega)]
    simp only [hl4, h.proto, h.sport, h.dport, h.saddr, h.daddr, h.totLen]
    rw [if_neg (Nat.not_lt.mpr h.fits)]
    simp only [UInt16.ofNat_toNat, UInt32.ofNat_toNat]
    rw [ethLen, ← h.ipOff]

theorem Shaped.congr (h : Shaped f o) (hl : f'.length = f.length)
    (hs : ∀ off n, off + n ≤ 24 → 12 ≤ off → word f' off n = word f off n)
    (hf : o'.ipOff = o.ipOff ∧ o'.l4Off = o.l4Off ∧ o'.proto = o.proto ∧ o'.totLen = o.totLen)
    (hsp : word f' o.l4Off 2 = o'.sport.toNat) (hd : word f' (o.l4Off + 2) 2 = o'.dport.toNat)
    (hsa : word f' 26 4 = o'.saddr.toNat) (hda : word f' 30 4 = o'.daddr.toNat) : Shaped f' o' := by
  obtain ⟨hi, hl4, hp, ht⟩ := hf
  exact
    { etherType := (hs 12 2 (by omega) (by omega)).trans h.etherType
      ipOff := hi.trans h.ipOff
      proto := by rw [hp, hs 23 1 (by omega) (by omega)]; exact h.proto
      transport := by rw [hp]; exact h.transport
      whole := by rw [hs 20 2 (by omega) (by omega)]; exact h.whole
      ihl := by rw [hl4, hs 14 1 (by omega) (by omega)]; exact h.ihl
      header := by rw [hl4]; exact h.header
      fits := by rw [hl4, hp, hl]; exact h.fits
      sport := by rw [hl4]; exact hsp
      dport := by rw [hl4]; exact hd
      saddr := hsa
      daddr := hda
      totLen := by rw [ht, hs 16 2 (by omega) (by omega)]; exact h.totLen }

def storeBytes (f : Frame) (off : Nat) (bs : Bytes) : Option Frame :=
  if off + bs.length ≤ f.length then some (store f off bs) else none

def onesAdd (a b : Nat) : Nat := (a + b) % 0x10000 + (a + b) / 0x10000

def csumReplace (sum old new : Nat) : Nat :=
  0xffff - onesAdd (onesAdd (0xffff - sum) (0xffff - old)) new

def csumAfter (size sum old new : Nat) : Nat :=
  let low := csumReplace sum (old % 0x10000) (new % 0x10000)
  if size = 4 then csumReplace low (old / 0x10000) (new / 0x10000) else low

def replaceCsum (f : Frame) (off : Nat) (old new : Nat) (size : Nat) : Option Frame :=
  storeBytes f off (beBytes 2 (csumAfter size (word f off 2) old new))

def l4CsumOff (o : L4off) : Nat := if o.proto = 6 then o.l4Off + 16 else o.l4Off + 6

/-- A UDP checksum of zero stands for none and is left. -/
def replaceL4Csum (f : Frame) (o : L4off) (old new size : Nat) : Option Frame :=
  if o.proto = protoUDP ∧ word f (l4CsumOff o) 2 = 0 then some f
  else replaceCsum f (l4CsumOff o) old new size

def setAddr (f : Frame) (o : L4off) (off : Nat) (old new : Addr) : Option Frame :=
  if old = new then some f
  else do
    let f ← storeBytes f off (beBytes 4 new.toNat)
    let f ← replaceCsum f (o.ipOff + 10) old.toNat new.toNat 4
    replaceL4Csum f o old.toNat new.toNat 4

def setPort (f : Frame) (o : L4off) (off : Nat) (old new : Port) : Option Frame :=
  if old = new then some f
  else do
    let f ← storeBytes f off (beBytes 2 new.toNat)
    replaceL4Csum f o old.toNat new.toNat 2

def sportOff (o : L4off) : Nat := o.l4Off

def dportOff (o : L4off) : Nat := o.l4Off + 2

def setEthDst (f : Frame) (mac : EthAddr) : Option Frame := storeBytes f 0 mac.toList

/-- A frame is the same outside some places: those from `off` on, so many bytes, for each. -/
def SameOutside (places : List (Nat × Nat)) (f f' : Frame) : Prop :=
  f'.length = f.length ∧ ∀ off n, (∀ p ∈ places, off + n ≤ p.1 ∨ p.1 + p.2 ≤ off) →
    word f' off n = word f off n

theorem SameOutside.refl (places : List (Nat × Nat)) (f : Frame) : SameOutside places f f :=
  ⟨rfl, fun _ _ _ => rfl⟩

theorem SameOutside.trans (h : SameOutside places f f') (h' : SameOutside places f' f'') :
    SameOutside places f f'' :=
  ⟨h'.1.trans h.1, fun off n ha => (h'.2 off n ha).trans (h.2 off n ha)⟩

theorem SameOutside.mono (h : SameOutside places f f') (hs : ∀ p ∈ places, p ∈ places') :
    SameOutside places' f f' :=
  ⟨h.1, fun off n ha => h.2 off n fun p hp => ha p (hs p hp)⟩

theorem storeBytes_same (hs : bs.length = size) (h : storeBytes f off bs = some f') :
    SameOutside [(off, size)] f f' := by
  unfold storeBytes at h
  split at h
  · rename_i hf
    cases h
    subst hs
    refine ⟨length_store hf, fun off' n ha => ?_⟩
    have hp := ha _ List.mem_cons_self
    exact congrArg beNat (slice_store_of_apart hf hp)
  · cases h

theorem storeBytes_word (hn : n < 256 ^ size) (h : storeBytes f off (beBytes size n) = some f') :
    word f' off size = n := by
  unfold storeBytes at h
  split at h
  · rename_i hf
    cases h
    rw [length_beBytes] at hf
    have hs := @slice_store_self f (beBytes size n) off (by omega)
    rw [length_beBytes] at hs
    rw [word, hs, beNat_beBytes hn]
  · cases h

theorem storeBytes_spec (hf : off + size ≤ f.length) (hn : n < 256 ^ size) :
    ∃ f', storeBytes f off (beBytes size n) = some f' ∧ SameOutside [(off, size)] f f' ∧
      word f' off size = n := by
  have hs : storeBytes f off (beBytes size n) = some (store f off (beBytes size n)) := by
    rw [storeBytes, length_beBytes, if_pos hf]
  exact ⟨_, hs, storeBytes_same (length_beBytes size n) hs, storeBytes_word hn hs⟩

theorem replaceCsum_spec (f : Frame) (off : Nat) (hf : off + 2 ≤ f.length) (old new size : Nat) :
    ∃ f', replaceCsum f off old new size = some f' ∧ SameOutside [(off, 2)] f f' ∧
      word f' off 2 = csumAfter size (word f off 2) old new := by
  have hl : csumAfter size (word f off 2) old new < 256 ^ 2 := by
    unfold csumAfter csumReplace
    dsimp only
    split <;> omega
  exact storeBytes_spec hf hl

theorem replaceL4Csum_spec (f : Frame) (o : L4off) (hf : l4CsumOff o + 2 ≤ f.length)
    (old new size : Nat) :
    ∃ f', replaceL4Csum f o old new size = some f' ∧ SameOutside [(l4CsumOff o, 2)] f f' := by
  unfold replaceL4Csum
  split
  · exact ⟨f, rfl, .refl _ f⟩
  · obtain ⟨f', hr, hs, -⟩ := replaceCsum_spec f _ hf old new size
    exact ⟨f', hr, hs⟩

theorem Shaped.csumOff (h : Shaped f o) :
    o.l4Off + 4 ≤ l4CsumOff o ∧ l4CsumOff o + 2 ≤ f.length := by
  have hf := h.fits
  unfold l4CsumOff
  unfold l4Len at hf
  split at hf <;> rename_i hp
  · rw [if_pos hp]
    omega
  · rw [if_neg hp]
    omega

theorem setAddr_steps (hi : o.ipOff = 14) (hf : 34 ≤ f.length) (hh : off + 4 ≤ 34)
    (hne : old ≠ new) :
    ∃ f1 f2, setAddr f o off old new = replaceL4Csum f2 o old.toNat new.toNat 4 ∧
      SameOutside [(off, 4)] f f1 ∧ word f1 off 4 = new.toNat ∧ SameOutside [(24, 2)] f1 f2 ∧
      word f2 24 2 = csumAfter 4 (word f1 24 2) old.toNat new.toNat := by
  obtain ⟨f1, hs, hsa, hword⟩ := storeBytes_spec (show off + 4 ≤ f.length by omega) new.toNat_lt
  have hl1 := hsa.1
  obtain ⟨f2, hr, hs2, hv⟩ := replaceCsum_spec f1 24 (by omega) old.toNat new.toNat 4
  refine ⟨f1, f2, ?_, hsa, hword, hs2, hv⟩
  rw [setAddr, if_neg hne, hi, hs]
  simp only [bind_eq_bind, bind_some, hr]

theorem setAddr_spec (h : Shaped f o) (off : Nat) (hl : 26 ≤ off) (hh : off + 4 ≤ 34)
    (ho : word f off 4 = old.toNat) (new : Addr) :
    ∃ f', setAddr f o off old new = some f' ∧ word f' off 4 = new.toNat ∧
      SameOutside [(off, 4), (24, 2), (l4CsumOff o, 2)] f f' := by
  have hhe := h.header
  obtain ⟨hc, hf⟩ := h.csumOff
  by_cases he : old = new
  · subst he
    exact ⟨f, if_pos rfl, ho, .refl _ f⟩
  obtain ⟨f1, f2, hr, hsa, hword, hs2, -⟩ := setAddr_steps h.ipOff (show 34 ≤ f.length by omega) hh he
  have hl1 := hsa.1
  have hl2 := hs2.1
  obtain ⟨f3, hl4, hs3⟩ := replaceL4Csum_spec f2 o (by omega) old.toNat new.toNat 4
  refine ⟨f3, hr.trans hl4, ?_, ?_⟩
  · rw [hs3.2 off 4 (by simp; omega), hs2.2 off 4 (by simp; omega), hword]
  · refine (hsa.mono ?_).trans ((hs2.mono ?_).trans (hs3.mono ?_)) <;> simp

theorem setPort_steps (hf : off + 2 ≤ f.length) (hne : old ≠ new) :
    ∃ f', setPort f o off old new = replaceL4Csum f' o old.toNat new.toNat 2 ∧
      SameOutside [(off, 2)] f f' ∧ word f' off 2 = new.toNat := by
  obtain ⟨f', hs, hsa, hword⟩ := storeBytes_spec hf new.toNat_lt
  refine ⟨f', ?_, hsa, hword⟩
  rw [setPort, if_neg hne, hs]
  simp only [bind_eq_bind, bind_some]

theorem setPort_spec (hc : o.l4Off + 4 ≤ l4CsumOff o) (hf : l4CsumOff o + 2 ≤ f.length)
    (hh : off + 2 ≤ o.l4Off + 4) (ho : word f off 2 = old.toNat) (new : Port) :
    ∃ f', setPort f o off old new = some f' ∧ word f' off 2 = new.toNat ∧
      SameOutside [(off, 2), (l4CsumOff o, 2)] f f' := by
  by_cases he : old = new
  · subst he
    exact ⟨f, if_pos rfl, ho, .refl _ f⟩
  obtain ⟨f1, hr, hsa, hword⟩ := setPort_steps (o := o) (show off + 2 ≤ f.length by omega) he
  have hl1 := hsa.1
  obtain ⟨f2, hl, hs2⟩ := replaceL4Csum_spec f1 o (by omega) old.toNat new.toNat 2
  refine ⟨f2, hr.trans hl, ?_, ?_⟩
  · rw [hs2.2 off 2 (by simp; omega), hword]
  · refine (hsa.mono ?_).trans (hs2.mono ?_) <;> simp

def rewriteSrc (f : Frame) (o : L4off) (addr : Addr) (port : Port) : Option Frame := do
  let f ← setAddr f o (o.ipOff + 12) o.saddr addr
  setPort f o (sportOff o) o.sport port

def rewriteDst (f : Frame) (o : L4off) (addr : Addr) (port : Port) : Option Frame := do
  let f ← setAddr f o (o.ipOff + 16) o.daddr addr
  setPort f o (dportOff o) o.dport port

theorem rewrite_spec (h : Shaped f o) (ha : off = 26 ∨ off = 30)
    (hp : poff = o.l4Off ∨ poff = o.l4Off + 2) (hoa : word f off 4 = old.toNat)
    (hop : word f poff 2 = oldPort.toNat) (addr : Addr) (port : Port) :
    ∃ f', (setAddr f o off old addr).bind (setPort · o poff oldPort port) = some f' ∧
      word f' off 4 = addr.toNat ∧ word f' poff 2 = port.toNat ∧
      SameOutside [(off, 4), (24, 2), (poff, 2), (l4CsumOff o, 2)] f f' := by
  have hh := h.header
  obtain ⟨hc, hf⟩ := h.csumOff
  obtain ⟨f1, hs, hword, hsa⟩ := setAddr_spec h off (by omega) (by omega) hoa addr
  obtain ⟨f2, hs2, hword2, hsa2⟩ := setPort_spec hc (hsa.1 ▸ hf)
    (show poff + 2 ≤ o.l4Off + 4 by omega) ((hsa.2 _ _ (by simp; omega)).trans hop) port
  refine ⟨f2, by rw [hs]; exact hs2, ?_, hword2, ?_⟩
  · exact (hsa2.2 _ _ (by simp; omega)).trans hword
  · refine (hsa.mono ?_).trans (hsa2.mono ?_) <;> simp

theorem rewriteSrc_spec (h : Shaped f o) (addr : Addr) (port : Port) :
    ∃ f', rewriteSrc f o addr port = some f' ∧
      Shaped f' { o with saddr := addr, sport := port } := by
  have hh := h.header
  obtain ⟨hc, -⟩ := h.csumOff
  obtain ⟨f', hs, hwa, hwp, hsa⟩ := rewrite_spec h (.inl rfl) (.inl rfl) h.saddr h.sport addr port
  refine ⟨f', by rw [rewriteSrc, h.ipOff]; exact hs, ?_⟩
  exact h.congr hsa.1 (fun off n hn ho => hsa.2 off n (by simp; omega)) ⟨rfl, rfl, rfl, rfl⟩ hwp
    ((hsa.2 _ _ (by simp; omega)).trans h.dport) hwa ((hsa.2 _ _ (by simp; omega)).trans h.daddr)

theorem rewriteDst_spec (h : Shaped f o) (addr : Addr) (port : Port) :
    ∃ f', rewriteDst f o addr port = some f' ∧
      Shaped f' { o with daddr := addr, dport := port } := by
  have hh := h.header
  obtain ⟨hc, -⟩ := h.csumOff
  obtain ⟨f', hs, hwa, hwp, hsa⟩ := rewrite_spec h (.inr rfl) (.inr rfl) h.daddr h.dport addr port
  refine ⟨f', by rw [rewriteDst, h.ipOff]; exact hs, ?_⟩
  exact h.congr hsa.1 (fun off n hn ho => hsa.2 off n (by simp; omega)) ⟨rfl, rfl, rfl, rfl⟩
    ((hsa.2 _ _ (by simp; omega)).trans h.sport) hwp ((hsa.2 _ _ (by simp; omega)).trans h.saddr) hwa

theorem setEthDst_spec (h : Shaped f o) (mac : EthAddr) :
    ∃ f', setEthDst f mac = some f' ∧ Shaped f' o ∧ slice f' 0 6 = mac.toList := by
  have hh := h.header
  have hf := h.fits
  have hs : setEthDst f mac = some (store f 0 mac.toList) := by
    rw [setEthDst, storeBytes, if_pos (by simp; omega)]
  have hsa : SameOutside [(0, 6)] f (store f 0 mac.toList) := storeBytes_same (by simp) hs
  refine ⟨_, hs, ?_, ?_⟩
  · exact h.congr hsa.1 (fun off n hn ho => hsa.2 off n (by simp; omega)) ⟨rfl, rfl, rfl, rfl⟩
      ((hsa.2 _ _ (by simp; omega)).trans h.sport) ((hsa.2 _ _ (by simp; omega)).trans h.dport)
      ((hsa.2 _ _ (by simp)).trans h.saddr) ((hsa.2 _ _ (by simp)).trans h.daddr)
  · have hse := @slice_store_self f mac.toList 0 (by omega)
    rwa [Vector.length_toList] at hse

end Craftling.Dataplane
