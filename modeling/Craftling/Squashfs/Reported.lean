import Craftling.Squashfs.Faults

namespace Craftling.Squashfs
open Effects List Option

def Entry.extent (e : Entry) : Option (Nat × Nat) :=
  match e.kind with
  | .file start sizes _ => some (start, start + diskLen sizes)
  | _ => none

def Entry.Before (e f : Entry) : Prop := ∀ x ∈ e.extent, ∀ y ∈ f.extent, x.2 ≤ y.1

structure Spread (w : Writer) : Prop where
  apart : w.entries.Pairwise Entry.Before
  within : ∀ e ∈ w.entries, ∀ x ∈ e.extent, x.2 ≤ w.out.length

section Spreading

variable {expand : Bytes → Option Bytes} {w w' : Writer} {p : Bytes} {e : Entry}

theorem Spread.grow (h : Spread w) (hw : w.entries = es ++ [e]) (hw' : w'.entries = es ++ [e'])
    (ho : w.out.length ≤ w'.out.length) (hs : ∀ y ∈ e'.extent, ∃ x ∈ e.extent, x.1 = y.1)
    (he : ∀ y ∈ e'.extent, y.2 ≤ w'.out.length) : Spread w' := by
  have ha := h.apart
  have hwi := h.within
  rw [hw] at ha hwi
  rw [pairwise_append] at ha
  refine ⟨?_, fun f hf x hx => ?_⟩
  · rw [hw', pairwise_append]
    refine ⟨ha.1, pairwise_singleton _ _, fun f hf g hg x hx y hy => ?_⟩
    rw [mem_singleton.mp hg] at hy
    obtain ⟨z, hz, heq⟩ := hs y hy
    exact heq ▸ ha.2.2 f hf e (mem_singleton_self _) x hx z hz
  rw [hw'] at hf
  rcases mem_append.mp hf with hf | hf
  · exact Nat.le_trans (hwi f (mem_append_left _ hf) x hx) ho
  · rw [mem_singleton.mp hf] at hx
    exact he x hx

theorem Spread.emit {start size : Nat} (h : Spread w) (hc : w.cfg.compressor.Inverted expand)
    (hw : w.entries = es ++ [⟨p, .file start sizes size, a⟩]) (hp : p ∉ es.map Entry.path)
    (he : start + diskLen sizes = w.out.length) (hl : buf.length ≤ maxBlockSize)
    (hem : emitBlock p w buf = .ok w') : Spread w' := by
  by_cases hb : buf = []
  · rw [emitBlock, if_pos hb] at hem
    cases hem
    exact h
  obtain ⟨stored, raw, hs, rfl⟩ := emitBlock_spec hc hw hp hb hem
  have hsi := (sizeWord_spec raw (Nat.le_trans hs.small hl)).1
  refine h.grow hw rfl (by simp) (fun y hy => ?_) (fun y hy => ?_)
  · cases hy
    exact ⟨_, rfl, rfl⟩
  · cases hy
    rw [length_append, ← he, ← hsi, diskLen, diskLen, map_append, sum_append,
      map_singleton, sum_singleton, Nat.add_assoc]

theorem Spread.flush (h : Spread w) (hc : w.cfg.Good expand) (hw : Tells expand w items)
    (hf : flushCurFile w = .ok w') : Spread w' := by
  unfold flushCurFile at hf
  rcases hw with hw | hw
  · rw [hw.idle] at hf
    cases hf
    exact h
  obtain ⟨es, is, p, a, d, done, buf, rfl, hfi, _, hcu, hr⟩ := hw.file
  obtain ⟨start, sizes, blocks, he, _, _, _, hen, _⟩ := hfi.file
  rw [hcu] at hf
  obtain ⟨w1, hem, heq⟩ := bind_eq_ok.mp hf
  cases heq
  have hs := h.emit hc.inverted he (hfi.fresh hw.sound) hen
    (Nat.le_trans (Nat.le_of_lt hr) hc.most) hem
  exact ⟨hs.apart, hs.within⟩

theorem Spread.add (h : Spread w) (he : ∀ x ∈ e.extent, x = (w.out.length, w.out.length)) :
    Spread (w.add e) := by
  refine ⟨?_, fun f hf x hx => ?_⟩
  · refine pairwise_append.mpr ⟨h.apart, pairwise_singleton _ _, fun f hf g hg x hx y hy => ?_⟩
    rw [mem_singleton.mp hg] at hy
    rw [he y hy]
    exact h.within f hf x hx
  rcases mem_append.mp hf with hf | hf
  · exact h.within f hf x hx
  · rw [mem_singleton.mp hf] at hx
    rw [he x hx]
    exact Nat.le_refl _

theorem Spread.write (h : Spread w) (hc : w.cfg.Good expand) (hw : Filling expand w items)
    (hwr : w.write p data = .ok w') : Spread w' := by
  obtain ⟨es, is, q, a, d, done, buf, rfl, hf, _, hcu, hr⟩ := hw.file
  have hp := hf.fresh hw.sound
  unfold Writer.write at hwr
  rw [hcu] at hwr
  dsimp only at hwr
  split at hwr
  · cases hwr
  rename_i hq
  obtain rfl : q = p := Classical.not_not.mp hq
  split at hwr
  · cases hwr
  obtain ⟨⟨w1, buf'⟩, hfe, he⟩ := bind_eq_ok.mp hwr
  cases he
  obtain ⟨done', ⟨hsp, hf', _⟩, _⟩ := feed_invariant
    (I := fun w' done => Spread w' ∧ Fills expand es is q a d.length w' done ∧ w'.cfg = w.cfg)
    (fun s done b s' ⟨hsp, hs, hsc⟩ hb hem => by
      have hg : s.cfg.Good expand := hsc ▸ hc
      obtain ⟨start, sizes, _, hen, _, _, _, hend, _⟩ := hs.file
      obtain ⟨hn, hsa⟩ := hs.emit hg hp (hsc ▸ hb) hem
      refine ⟨hsp.emit hg.inverted hen hp hend ?_ hem, hn, hsa.trans hsc⟩
      exact hb ▸ hc.most)
    hr ⟨h, hf, rfl⟩ hfe
  obtain ⟨start, sizes, _, hen, _, _, _, hend, _⟩ := hf'.file
  have hu := @map_last Entry Bytes Entry.path _ es ⟨q, .file start sizes d.length, a⟩
    (Entry.addSize data.length) hp
  have he' : w1.entries.map (fun e => if e.path = q then e.addSize data.length else e) =
      es ++ [Entry.addSize data.length ⟨q, .file start sizes d.length, a⟩] := hen ▸ hu
  refine hsp.grow hen he' (Nat.le_refl _) (fun y hy => ⟨y, hy, rfl⟩) (fun y hy => ?_)
  cases hy
  exact Nat.le_of_eq hend

theorem Spread.call (h : Spread w) (hc : w.cfg.Good expand) (hw : Tells expand w items)
    (hca : w.call c = .ok w') : Spread w' := by
  have plain {p : Bytes} {a : Attrs} {k : Kind} (hk : Entry.extent ⟨p, k, a⟩ = none)
      (hcr : createPlain w p a k = .ok w') : Spread w' := by
    obtain ⟨w1, hb, he⟩ := bind_eq_ok.mp hcr
    cases he
    exact (h.flush hc hw (beginEntry_flush hb)).add fun x hx => by rw [hk] at hx; cases hx
  cases c with
  | file p a =>
    obtain ⟨w1, hb, he⟩ := bind_eq_ok.mp hca
    cases he
    have ha := (h.flush hc hw (beginEntry_flush hb)).add (e := ⟨p, .file w1.out.length [] 0, a⟩)
      fun x hx => by cases hx; rfl
    exact ⟨ha.apart, ha.within⟩
  | write p data =>
    rcases hw with hw | hw
    · have hs : w.write p data = .error .staleEntry := by rw [Writer.write, hw.idle]
      rw [show w.write p data = .ok w' from hca] at hs
      cases hs
    · exact h.write hc hw hca
  | dir p a => exact plain rfl hca
  | symlink p a target =>
    obtain ⟨w1, hb, he⟩ := bind_eq_ok.mp hca
    split at he
    · cases he
    · cases he
      exact (h.flush hc hw (beginEntry_flush hb)).add (by simp [Entry.extent])
  | hardlink p target =>
    replace hca : createHardlink w p target = .ok w' := hca
    unfold createHardlink at hca
    split at hca
    · cases hca
    obtain ⟨w1, hf, hca⟩ := bind_eq_ok.mp hca
    obtain ⟨_, _, hca⟩ := bind_eq_ok.mp hca
    obtain ⟨_, _, hca⟩ := bind_eq_ok.mp hca
    split at hca
    · cases hca
    split at hca
    · cases hca
      exact (h.flush hc hw hf).add (by simp [Entry.extent])
    · cases hca
  | charDevice p a major minor | blockDevice p a major minor | fifo p a | socket p a =>
    exact plain rfl hca

end Spreading

abbrev Log := List (Act × Report)

def told (items : List Item) : Act × Report → List Item
  | (.call c, r) => if r.err = none then itemsAfter items c else items
  | (.close, _) => items

def toldBy (log : Log) : List Item := log.foldl told []

def reportedOf (p : Bytes) : Act × Report → Bytes
  | (.call (.write q data), r) => if q = p then data.take r.written else []
  | _ => []

def reported (log : Log) (p : Bytes) : Bytes := log.flatMap (reportedOf p)

/-- Every file has what was reported, and nothing was reported for anything else. -/
structure Accounts (items : List Item) (got : Bytes → Bytes) : Prop where
  files : ∀ i ∈ items, ∀ d, i.body = .file d → d = got i.path
  rest : ∀ p, p ∉ items.map Item.path → got p = []

section Accounting

variable {expand : Bytes → Option Bytes} {w w' : Writer} {data p : Bytes}

theorem Accounts.add (h : Accounts items got) (hf : i.path ∉ items.map Item.path)
    (hb : ∀ d, i.body = .file d → d = []) : Accounts (items ++ [i]) got := by
  refine ⟨fun j hj d hd => ?_, fun p hp => h.rest p fun hm => hp ?_⟩
  · rcases mem_append.mp hj with hj | hj
    · exact h.files j hj d hd
    · obtain rfl := mem_singleton.mp hj
      rw [hb d hd, h.rest _ hf]
  · rw [map_append]
    exact mem_append_left _ hm

theorem Accounts.write (h : Accounts items got) (hp : p ∈ items.map Item.path) :
    Accounts (itemsAfter items (.write p data)) fun q => got q ++ if p = q then data else [] := by
  have hpa : (itemsAfter items (.write p data)).map Item.path = items.map Item.path := by
    rw [itemsAfter, List.map_map]
    apply List.map_congr_left
    intro i _
    simp only [Function.comp]
    split
    · cases i with
      | mk path attrs body => cases body <;> rfl
    · rfl
  refine ⟨fun j hj d hd => ?_, fun q hq => ?_⟩
  · obtain ⟨i, hi, rfl⟩ := List.mem_map.mp hj
    by_cases hpat : i.path = p
    · rw [if_pos hpat] at hd ⊢
      cases i with
      | mk path attrs body =>
        cases body with
        | file d0 =>
          cases hd
          have hd0 : d0 = got path := h.files _ hi d0 rfl
          show d0 ++ data = got path ++ if p = path then data else []
          rw [if_pos (show p = path from hpat.symm), hd0]
        | _ => cases hd
    · rw [if_neg hpat] at hd ⊢
      rw [if_neg (Ne.symm hpat), List.append_nil]
      exact h.files i hi d hd
  · rw [hpa] at hq
    have hn : p ≠ q := fun he => hq (he ▸ hp)
    rw [h.rest q hq, if_neg hn]
    rfl

section

variable (h : Tells expand w items)
include h

theorem Tells.room :
    ∀ fw ∈ w.curFile, fw.buf.length < w.cfg.blockSize := by
  intro fw hf
  rcases h with h | h
  · rw [h.idle] at hf
    cases hf
  obtain ⟨_, _, _, _, _, _, _, _, _, _, hc, hr⟩ := h.file
  rw [hc] at hf
  cases hf
  exact hr

theorem Tells.sound : SoundItems items := by
  rcases h with h | h
  · exact h.sound
  · exact h.sound

theorem Tells.written (hw : w.write p data = .ok w') :
    p ∈ items.map Item.path := by
  unfold Writer.write at hw
  rcases h with h | h
  · rw [h.idle] at hw
    cases hw
  obtain ⟨_, _, q, _, _, _, _, rfl, _, _, hc, _⟩ := h.file
  rw [hc] at hw
  dsimp only at hw
  split at hw
  · cases hw
  · rename_i hq
    rw [← Classical.not_not.mp hq]
    simp

theorem Tells.keep (hc : w.cfg.Good expand)
    (hk : w.Keeps w') : Tells expand w' items ∧ w'.cfg = w.cfg := by
  rcases hk with rfl | hf
  · exact ⟨h, rfl⟩
  · obtain ⟨hs, hsa⟩ := h.flush hc hf
    exact ⟨.inl hs, hsa⟩

end

theorem Accounts.call (h : Accounts items got) (hw' : Tells expand w' (itemsAfter items c))
    (hw : Tells expand w items) (hca : w.call c = .ok w')
    (ha : ∀ p data, c = .write p data → r.written = data.length) :
    Accounts (itemsAfter items c) fun p => got p ++ reportedOf p (.call c, r) := by
  have create {i : Item} (hi : itemsAfter items c = items ++ [i])
      (hb : ∀ d, i.body = .file d → d = []) (hc : ∀ p, reportedOf p (.call c, r) = []) :
      Accounts (itemsAfter items c) fun p => got p ++ reportedOf p (.call c, r) := by
    simp only [hc, append_nil]
    rw [hi] at hw' ⊢
    refine h.add (fun hm => ?_) hb
    have hn := hw'.sound.nodup
    rw [map_append, map_singleton, nodup_append] at hn
    exact hn.2.2 _ hm _ (mem_singleton_self _) rfl
  cases c with
  | write p data =>
    simp only [reportedOf, ha p data rfl, take_length]
    exact h.write (hw.written hca)
  | file p a => exact create rfl (fun d hd => by cases hd; rfl) fun _ => rfl
  | dir p a | symlink p a target | hardlink p target => exact create rfl nofun fun _ => rfl
  | charDevice p a major minor | blockDevice p a major minor | fifo p a | socket p a =>
    exact create rfl nofun fun _ => rfl

end Accounting

structure Follows (expand : Bytes → Option Bytes) (cfg : Config) (s : Session) (log : Log) :
    Prop where
  cfg : s.writer.cfg = cfg
  tells : Tells expand s.writer (toldBy log)
  accounts : Accounts (toldBy log) (reported log)
  spread : Spread s.writer

def Act.isWrite : Act → Bool
  | .call (.write ..) => true
  | _ => false

/-- Of the output writes that the act makes, those that fail have written nothing, and in a `Write`
none fails. -/
def Session.Spared (faults : Faults) (s : Session) (a : Act) : Prop :=
  ∀ i k, s.writes ≤ i → i < (s.act faults a).2.writes → faults i = some k → k = 0 ∧ a.isWrite = false

def Session.AllSpared (faults : Faults) (s : Session) : List Act → Prop
  | [] => True
  | a :: acts => s.Spared faults a ∧ (s.act faults a).2.AllSpared faults acts

section Running

variable {expand : Bytes → Option Bytes} {faults : Faults} {s s' : Session} {log : Log}
    {cfg : Config} {image : Writer → Except Err Bytes}

theorem Session.closeWith_ok (h : s.closeWith faults image = (none, s')) :
    s.writer.closed = false ∧ ∃ w img, Squashfs.flushCurFile s.writer = .ok w ∧ image w = .ok img ∧
      s'.writer = { w with closed := true, out := img } := by
  unfold Session.closeWith at h
  split at h
  · cases h
  rename_i ho
  split at h
  · cases h
  rename_i s1 hf
  split at h
  · cases h
  rename_i img hi
  split at h
  · cases h
  · cases h
    exact ⟨Bool.eq_false_of_not_eq_true ho, s1.writer, img, Session.flushCurFile_ok hf, hi, rfl⟩

theorem Session.closeWith_open (hc : faults.CleanIn s.writes (s.closeWith faults image).2.writes)
    (h : (s.closeWith faults image).2.writer.closed = false) :
    (s.closeWith faults image).2.writer = s.writer := by
  unfold Session.closeWith at h hc ⊢
  split
  · rfl
  rename_i ho
  rw [if_neg ho] at h hc
  split
  · rename_i hf
    rw [hf] at hc
    exact Session.flushCurFile_err hf hc
  rename_i hf
  rw [hf] at h
  dsimp only at h
  split
  · rename_i hi
    rw [hi] at h
    cases h
  rename_i hi
  rw [hi] at h
  dsimp only at h
  split at h
  · cases h
  · cases h

theorem Session.act_closed (h : s.writer.closed = true) (a : Act) : (s.act faults a).2 = s := by
  have hb (p : Bytes) : s.beginEntry faults p = (some .closed, s) := by
    rw [Session.beginEntry, if_pos h]
  have hc (p : Bytes) (refused : Option Err) (make : Writer → Writer) :
      s.create faults p refused make = (some .closed, s) := by
    rw [Session.create, hb]
  cases a with
  | close =>
    show (s.closeWith faults _).2 = s
    rw [Session.closeWith, if_pos h]
  | call c =>
    cases c with
    | write p data =>
      show (s.write faults p data).2.2 = s
      unfold Session.write
      split
      · rfl
      split
      · rfl
      · rfl
    | hardlink p target =>
      show (s.createHardlink faults p target).2 = s
      rw [Session.createHardlink, if_pos h]
    | _ => exact congrArg Prod.snd (hc ..)

theorem toldBy_concat (log : Log) (x : Act × Report) : toldBy (log ++ [x]) = told (toldBy log) x := by
  rw [toldBy, foldl_append]
  rfl

theorem reported_concat (log : Log) (x : Act × Report) (p : Bytes) :
    reported (log ++ [x]) p = reported log p ++ reportedOf p x := by
  rw [reported, flatMap_append, flatMap_singleton]
  rfl

theorem Session.Spared.clean (h : s.Spared faults a) :
    faults.CleanIn s.writes (s.act faults a).2.writes := fun i k hl hu hk => (h i k hl hu hk).1

theorem Session.Spared.plain (hi : s.writer.cfg.compressor.Inverted expand)
    (h : s.Spared faults (.call c)) (hr : (s.call faults c).1.err ≠ none) :
    (s.call faults c).1.written = 0 := by
  obtain ⟨e, he⟩ := Option.ne_none_iff_exists'.mp hr
  cases c with
  | write p data =>
    refine Session.write_spared hi (Prod.ext rfl (Prod.ext he rfl)) fun i hl hu => ?_
    by_contra hf
    obtain ⟨k, hk⟩ := Option.ne_none_iff_exists'.mp hf
    cases (h i k hl hu hk).2
  | _ => rfl

theorem Follows.act (hc : cfg.Good expand)
    (h : Follows expand cfg s log) (ha : s.act faults a = (r, s')) (hp : s.Spared faults a)
    (ho : s'.writer.closed = false) : Follows expand cfg s' (log ++ [(a, r)]) := by
  have hg : s.writer.cfg.Good expand := h.cfg ▸ hc
  have idle (hk : s.writer.Keeps s'.writer) (ht : told (toldBy log) (a, r) = toldBy log)
      (hn : ∀ p, reportedOf p (a, r) = []) : Follows expand cfg s' (log ++ [(a, r)]) := by
    obtain ⟨hte, hs⟩ := h.tells.keep hg hk
    have hgo : reported (log ++ [(a, r)]) = reported log := by
      funext p
      rw [reported_concat, hn, append_nil]
    refine ⟨hs.trans h.cfg, ?_, ?_, ?_⟩
    · rw [toldBy_concat, ht]
      exact hte
    · rw [toldBy_concat, ht, hgo]
      exact h.accounts
    · rcases hk with he | hf
      · exact he ▸ h.spread
      · exact h.spread.flush hg h.tells hf
  cases a with
  | close =>
    have hs : s'.writer = s.writer := by
      cases ha
      exact Session.closeWith_open hp.clean ho
    exact idle (.inl hs) rfl fun _ => rfl
  | call c =>
    by_cases hr : r.err = none
    · obtain ⟨hca, hal⟩ := Session.call_ok h.tells.room ha hr
      obtain ⟨hte, hs⟩ := call_spec hg h.tells hca
      have ht : told (toldBy log) (.call c, r) = itemsAfter (toldBy log) c := if_pos hr
      refine ⟨hs.trans h.cfg, ?_, ?_, h.spread.call hg h.tells hca⟩
      · rw [toldBy_concat, ht]
        exact hte
      · rw [toldBy_concat, ht, show reported _ = _ from funext (reported_concat log (.call c, r))]
        exact h.accounts.call hte h.tells hca hal
    · have hs := hp.clean
      have hrc : (s.call faults c).1 = r := congrArg Prod.fst ha
      have hz : r.written = 0 := hrc ▸ hp.plain hg.inverted (hrc.symm ▸ hr)
      rw [ha] at hs
      refine idle (Session.call_err hs h.tells.room ha hr hz) (if_neg hr) fun p => ?_
      cases c with
      | write q data =>
        rw [reportedOf, hz, take_zero, ite_self]
      | _ => rfl

theorem Follows.run (hc : cfg.Good expand)
    (h : s.writer.closed = false → Follows expand cfg s log) (acts : List Act)
    (hp : s.AllSpared faults acts)
    (ho : (s.run faults acts).2.writer.closed = false) :
    Follows expand cfg (s.run faults acts).2 (log ++ (s.run faults acts).1) := by
  induction acts generalizing s log with
  | nil =>
    rw [Session.run, append_nil]
    exact h ho
  | cons a acts ih =>
    have hs : (s.act faults a).2.writer.closed = false →
        Follows expand cfg (s.act faults a).2 (log ++ [(a, (s.act faults a).1)]) := by
      intro hn
      have hb : s.writer.closed = false := by
        by_contra hclo
        rw [Session.act_closed (Bool.eq_true_of_not_eq_false hclo)] at hn
        exact hclo hn
      exact (h hb).act hc rfl hp.1 hn
    have hr := ih hs hp.2 ho
    rw [append_assoc, singleton_append] at hr
    exact hr

theorem newSession_follows (cfg : Config) : Follows expand cfg (newSession cfg) [] :=
  ⟨rfl, .inl ⟨rfl, rfl, .nil, ⟨nodup_nil, nofun, nofun⟩,
    Nat.le_of_eq (length_replicate).symm, .inl length_replicate⟩,
    ⟨nofun, fun _ _ => rfl⟩, ⟨.nil, nofun⟩⟩

end Running

section Found

variable {expand : Bytes → Option Bytes} {img : Bytes} {place : Nat × Nat} {sb : Superblock}

theorem mapM_mono {f g : α → Option β} (hf : ∀ x y, f x = some y → g x = some y) {l : List α}
    (h : l.mapM f = some ys) : l.mapM g = some ys := by
  induction l generalizing ys with
  | nil => exact h
  | cons x l ih =>
    rw [mapM_cons] at h ⊢
    obtain ⟨y, hy, h⟩ := bind_eq_some_iff.mp h
    obtain ⟨rest, hr, he⟩ := bind_eq_some_iff.mp h
    rw [hf x y hy, ih hr]
    exact he

theorem decodeFrom_mono {check : Option DirEntry}
    (h : decodeFrom expand img sb fuel path place check = some out) :
    decodeFrom expand img sb (fuel + 1) path place check = some out := by
  induction fuel generalizing path place check out with
  | zero => cases h
  | succ fuel ih =>
    rw [decodeFrom] at h ⊢
    obtain ⟨⟨f, body⟩, hf, h⟩ := bind_eq_some_iff.mp h
    refine bind_eq_some_iff.mpr ⟨_, hf, ?_⟩
    dsimp only at h ⊢
    split at h
    · rename_i hc
      rw [if_pos hc]
      obtain ⟨entries, hen, h⟩ := bind_eq_some_iff.mp h
      obtain ⟨below, hb, h⟩ := bind_eq_some_iff.mp h
      exact bind_eq_some_iff.mpr ⟨entries, hen,
        bind_eq_some_iff.mpr ⟨below, mapM_mono (fun e y he => ih he) hb, h⟩⟩
    · cases h

theorem Decodes.of_decode (h : decode expand img fuel = some tree) : Decodes expand img tree := by
  refine ⟨fuel, fun fuel' hl => ?_⟩
  obtain ⟨sb, hs, h⟩ := bind_eq_some_iff.mp h
  refine bind_eq_some_iff.mpr ⟨sb, hs, ?_⟩
  induction hl with
  | refl => exact h
  | step _ ih => exact decodeFrom_mono ih

theorem readFound_ok {body : InodeBody} (h : readFound expand img sb place = some (f, body)) :
    f.place = place ∧ readContent expand img sb body = some f.content := by
  obtain ⟨inode, _, h⟩ := bind_eq_some_iff.mp h
  obtain ⟨uid, _, h⟩ := bind_eq_some_iff.mp h
  obtain ⟨gid, _, h⟩ := bind_eq_some_iff.mp h
  obtain ⟨content, hc, h⟩ := bind_eq_some_iff.mp h
  cases h
  exact ⟨rfl, hc⟩

def blocksAt (expand : Bytes → Option Bytes) (img : Bytes) (place : Nat × Nat) :
    Option (Nat × Nat) := do
  let sb ← readSuperblock img
  let (_, body) ← readFound expand img sb place
  match body with
  | .file start _ sizes => some (start, start + diskLen sizes)
  | _ => none

def FilesApart (expand : Bytes → Option Bytes) (img : Bytes) (tree : List (Bytes × Found)) : Prop :=
  ∀ x ∈ tree, ∀ y ∈ tree, x.2.place ≠ y.2.place → ∀ a ∈ blocksAt expand img x.2.place,
    ∀ b ∈ blocksAt expand img y.2.place, a.2 ≤ b.1 ∨ b.2 ≤ a.1

/-- Every file was created, there or where its path is a link to, and has the bytes that were
reported as written. -/
def FilesAsReported (log : Log) (tree : List (Bytes × Found)) : Prop :=
  ∀ x ∈ tree, ∀ data, x.2.content = .file data → ∃ q a r, (Act.call (.file q a), r) ∈ log ∧
    r.err = none ∧ (q, x.2) ∈ tree ∧ data = reported log q

end Found

theorem toldBy_file (hi : i ∈ toldBy log) (hd : i.body = .file d) :
    ∃ a r, (Act.call (.file i.path a), r) ∈ log ∧ r.err = none := by
  induction log using List.reverseRecOn generalizing i d with
  | nil => exact absurd hi not_mem_nil
  | append_singleton log x ih =>
    have old {j : Item} (hj : j ∈ toldBy log) {d : Bytes} (hd : j.body = .file d) :
        ∃ a r, (Act.call (.file j.path a), r) ∈ log ++ [x] ∧ r.err = none := by
      obtain ⟨a, r, hm, hr⟩ := ih hj hd
      exact ⟨a, r, mem_append_left _ hm, hr⟩
    have new {j : Item} (hj : i ∈ toldBy log ++ [j])
        (hf : ∀ d, j.body = .file d → ∃ a r, x = (.call (.file j.path a), r) ∧ r.err = none) :
        ∃ a r, (Act.call (.file i.path a), r) ∈ log ++ [x] ∧ r.err = none := by
      rcases mem_append.mp hj with hj | hj
      · exact old hj hd
      · obtain rfl := mem_singleton.mp hj
        obtain ⟨a, r, rfl, hr⟩ := hf d hd
        exact ⟨a, r, mem_append_right _ (mem_singleton_self _), hr⟩
    rw [toldBy_concat] at hi
    obtain ⟨a, r⟩ := x
    cases a with
    | close => exact old hi hd
    | call c =>
      rw [told] at hi
      split at hi
      · rename_i hr
        cases c with
        | write p data =>
          obtain ⟨j, hj, rfl⟩ := mem_map.mp hi
          split at hd
          · rename_i hp
            rw [if_pos hp]
            cases j with
            | mk path attrs body =>
              cases body with
              | file d0 =>
                have ho := old hj rfl
                exact ho
              | _ => cases hd
          · rename_i hp
            rw [if_neg hp]
            exact old hj hd
        | file p a => exact new hi fun _ _ => ⟨a, r, rfl, hr⟩
        | _ => exact new hi nofun
      · exact old hi hd

section Image

variable {expand : Bytes → Option Bytes} {img : Bytes} {sb : Superblock} {x : Resolved}
    {t : Written} {out : Bytes} {f : Found} {a : Nat × Nat}

theorem ImageHolds.extent (h : ImageHolds expand img sb x t out) (hl : LeafLaid x t.inodes e r)
    (ho : Owned x.owners e.path e.attrs) (he : EntryHolds expand x.cfg.blockSize out e i)
    {start size : Nat}
    (hr : readFound expand img sb (t.place r) = some (f, .file start size sizes)) :
    e.extent = some (start, start + diskLen sizes) := by
  obtain ⟨f', body, hr', _, _, _, hs, _⟩ := h.leaf hl ho he
  rw [hr] at hr'
  cases hr'
  obtain ⟨data, _, hd⟩ := map_eq_some_iff.mp (readFound_ok hr).2
  obtain ⟨pos, mtime, bytes, rfl, hm, henc, hli⟩ := hl
  have hk := he.kind
  have hc := hs.content
  rw [← hd] at hc
  rw [encodeLeaf, encodeLeafWith] at henc
  rw [Entry.extent]
  generalize e.kind = kind at hk henc ⊢
  generalize i.body = b at hk hc
  cases hk with
  | @file start' sizes' size' d hf =>
    obtain ⟨blocks, hb, _, _⟩ := hf.blocks
    rw [← h.blockSize] at henc
    have hi := (readInode_file (ho.fits h.fewIds (entryMtime_ok hm).1) hb.words_lt
      henc (h.gives hli)).1
    rw [readFound, hi] at hr
    obtain ⟨_, heq, hr⟩ := bind_eq_some_iff.mp hr
    cases heq
    obtain ⟨uid, _, hr⟩ := bind_eq_some_iff.mp hr
    obtain ⟨gid, _, hr⟩ := bind_eq_some_iff.mp hr
    obtain ⟨content, _, hr⟩ := bind_eq_some_iff.mp hr
    cases hr
    rfl
  | _ => cases hc

theorem blocksAt_eq {place : Nat × Nat} (hs : readSuperblock img = some sb)
    (hr : readFound expand img sb place = some (f, body))
    (ha : a ∈ blocksAt expand img place) :
    ∃ start size sizes, body = .file start size sizes ∧ a = (start, start + diskLen sizes) := by
  rw [blocksAt, hs] at ha
  simp only [bind_eq_bind, bind_some, hr] at ha
  split at ha
  · cases ha
    exact ⟨_, _, _, rfl, rfl⟩
  · cases ha

variable {w : Writer} {l : Layout} {root : Forest} {refs : List MetaRef}
    {all : List (Entry × MetaRef)} {rootRef : MetaRef} {found : List (Bytes × Found)} {f0 : Found}

section

variable (h : LaidOut expand w l x root t refs all rootRef) (hc : w.cfg.Good expand)
    (hw : Settled expand w items)
include h hc hw

theorem LaidOut.blocks_at {node : Entry × MetaRef}
    (hn : node ∈ all) (hr : Reads expand (w.image l) (w.superblock l) x t w.out node y)
    (ha : a ∈ blocksAt expand (w.image l) y.2.place) :
    ∃ e ∈ w.entries, e.extent = some a ∧ e.path = node.1.inodePath ∧ node.1.isDir = false := by
  have hs := hw.soundEntries
  have him := h.image_holds hc hw
  have hin : node.1 ∈ w.entries := (h.perm hs).mem_iff.mp (mem_map_of_mem hn)
  obtain ⟨body, hre⟩ := hr.inode
  have hp := (readFound_ok hre).1
  rw [hp] at ha
  obtain ⟨start, size, sizes, rfl, rfl⟩ := blocksAt_eq (h.read_superblock hc hw) hre ha
  obtain ⟨data, _, hd⟩ := map_eq_some_iff.mp (readFound_ok hre).2
  have hdi : node.1.isDir = false := by
    by_contra hdi
    have hk := Entry.kind_of_dir (Bool.eq_true_of_not_eq_false hdi)
    obtain ⟨i, _, hi⟩ := forall₂_of_mem_left hw.entries hin
    have hso : x.source node.1 = node.1 := by rw [Resolved.source, hk]
    have hsh := (hr.shown i (by rw [hso, h.cfg]; exact hi)).content
    have hb := hi.kind
    rw [hk] at hb
    rw [← hd] at hsh
    generalize i.body = b at hb hsh
    cases hb
    cases hsh
  obtain ⟨hso, hl, hpa, _⟩ := (h.entries.symm ▸ hs :
    SoundEntries x.entries).source_spec (h.entries ▸ hin) hdi
  rw [h.entries] at hso
  obtain ⟨i, _, hi⟩ := forall₂_of_mem_left hw.entries hso
  simp only [Entry.isLeaf, Bool.not_eq_true', Bool.or_eq_false_iff] at hl
  have ho := (h.owned hs).2.2 _ hso hl.2
  exact ⟨_, hso, him.extent (h.laid.leaf_of_mem hn hdi) ho (h.cfg ▸ hi) hre, hpa, hdi⟩

theorem LaidOut.files_apart (hs : Spread w)
    (hr : List.Forall₂ (Reads expand (w.image l) (w.superblock l) x t w.out) all found)
    (hro : ∃ body, readFound expand (w.image l) (w.superblock l) (t.place rootRef) =
      some (f0, body)) (hd : f0.content = .dir) :
    FilesApart expand (w.image l) (([slash], f0) :: found) := by
  -- A file is not the root.
  have hf : ∀ y ∈ ([slash], f0) :: found, ∀ a ∈ blocksAt expand (w.image l) y.2.place,
      y ∈ found := by
    intro y hy a ha
    rcases mem_cons.mp hy with rfl | hy
    · obtain ⟨body, hbo⟩ := hro
      rw [(readFound_ok hbo).1] at ha
      obtain ⟨_, _, _, rfl, _⟩ := blocksAt_eq (h.read_superblock hc hw) hbo ha
      obtain ⟨_, _, hda⟩ := map_eq_some_iff.mp (readFound_ok hbo).2
      rw [hd] at hda
      cases hda
    · exact hy
  intro y hy z hz hn a ha b hb
  obtain ⟨node, hno, hre⟩ := forall₂_of_mem_right hr (hf y hy a ha)
  obtain ⟨node', hn', hr'⟩ := forall₂_of_mem_right hr (hf z hz b hb)
  obtain ⟨e, he, hea, hp, hl⟩ := h.blocks_at hc hw hno hre ha
  obtain ⟨e', he', heb, hp', hl'⟩ := h.blocks_at hc hw hn' hr' hb
  have hdi : e ≠ e' := by
    rintro rfl
    obtain ⟨leafRefs, hle⟩ := h.leaves
    have hsa : node.2 = node'.2 := by
      rw [hle _ hno hl, hle _ hn' hl', ← hp, ← hp']
    obtain ⟨_, hbo⟩ := hre.inode
    obtain ⟨_, hb'⟩ := hr'.inode
    exact hn (by rw [(readFound_ok hbo).1, (readFound_ok hb').1, hsa])
  have : Std.Symm fun e f : Entry => e.Before f ∨ f.Before e := ⟨fun _ _ => Or.symm⟩
  have hpa : w.entries.Pairwise fun e f => e.Before f ∨ f.Before e := hs.apart.imp .inl
  rcases hpa.forall he he' hdi with hbe | hbe
  · exact .inl (hbe a hea b heb)
  · exact .inr (hbe b heb a hea)

end

end Image

/-- A run in which no output write of a `Write` fails, and any other that fails has written nothing:
if it is closed without an error, every file has what was reported, and no two share their blocks. -/
theorem failed_writes_harmless {expand : Bytes → Option Bytes} {base cfg : Config} {n : UInt32}
    (hsize : withBlockSize base n = .ok cfg) (hcomp : cfg.compressor.Inverted expand)
    {faults : Faults} {acts : List Act} {log : Log} {s s' : Session}
    (hrun : (newSession cfg).run faults acts = (log, s))
    (hspared : (newSession cfg).AllSpared faults acts)
    (hfew : (toldBy log).length ≤ 2 ^ 22) (hclose : s.close faults = (none, s')) :
    ∃ tree, Decodes expand s'.writer.out tree ∧ FilesAsReported log tree ∧
      FilesApart expand s'.writer.out tree := by
  obtain ⟨hleast, hmost⟩ := withBlockSize_ok hsize
  have hcfg : cfg.Good expand := ⟨hcomp, hleast, hmost⟩
  obtain ⟨hopen, w, img, hflush, himg, hout⟩ := Session.closeWith_ok hclose
  have hfollows := Follows.run hcfg (fun _ => newSession_follows cfg) acts hspared
    (by rw [hrun]; exact hopen)
  rw [hrun, nil_append] at hfollows
  have hgood : s.writer.cfg.Good expand := hfollows.cfg ▸ hcfg
  obtain ⟨hsettled, hsame⟩ := hfollows.tells.flush hgood hflush
  have hgood' : w.cfg.Good expand := hsame ▸ hgood
  have hspread := hfollows.spread.flush hgood hfollows.tells hflush
  obtain ⟨l, hlayout, rfl⟩ : ∃ l, w.layout = .ok l ∧ w.image l = img := by
    cases hl : w.layout with
    | error e =>
      rw [hl] at himg
      cases himg
    | ok l =>
      rw [hl] at himg
      cases himg
      exact ⟨l, rfl, rfl⟩
  have hlen : w.entries.length ≤ 2 ^ 22 := hsettled.entries.length_eq ▸ hfew
  have hdirs : ∀ dir, (childrenOf w.entries dir).length ≤ 2 ^ 22 := fun dir =>
    Nat.le_trans (length_childrenOf_le ..) hlen
  have hsound := hsettled.soundEntries
  obtain ⟨x, root, t, refs, all, rootRef, hlaid⟩ := layout_spec hgood' hsound hdirs hlayout
  obtain ⟨f0, found, hdecodes, hreads, hroot, _, hshows⟩ := hlaid.decodes hgood' hsettled hdirs
  have hrestores := hlaid.restores hsettled hreads hshows
  have hdir : f0.content = .dir := (Option.some.inj hshows.content).symm
  rw [hout]
  refine ⟨_, hdecodes, ?_, hlaid.files_apart hgood' hsettled hspread hreads hroot hdir⟩
  -- A file that was created has what was reported.
  have own : ∀ i ∈ toldBy log, i.Own → ∀ f data, (i.path, f) ∈ ([slash], f0) :: found →
      f.content = .file data → ∃ q a r, (Act.call (.file q a), r) ∈ log ∧ r.err = none ∧
        (q, f) ∈ ([slash], f0) :: found ∧ data = reported log q := by
    intro i hi hown f data hf hdata
    have hcontent := (hrestores.own i hi hown f hf).content
    rw [hdata] at hcontent
    have hbody : i.body = .file data := by
      generalize i.body = b at hcontent
      cases b <;> cases hcontent
      rfl
    obtain ⟨a, r, hmem, hr⟩ := toldBy_file hi hbody
    exact ⟨i.path, a, r, hmem, hr, hf, hfollows.accounts.files i hi data hbody⟩
  intro y hy data hdata
  have hpath : y.1 ∈ [slash] :: (toldBy log).map Item.path :=
    hrestores.paths.mem_iff.mp (mem_map_of_mem hy)
  rcases mem_cons.mp hpath with hslash | hpath
  · have hcontent := (hrestores.root y.2 (hslash ▸ hy)).content
    rw [hdata] at hcontent
    cases hcontent
  obtain ⟨i, hi, hpath⟩ := mem_map.mp hpath
  have hf : (i.path, y.2) ∈ ([slash], f0) :: found := hpath ▸ hy
  by_cases hown : i.Own
  · exact own i hi hown y.2 data hf hdata
  obtain ⟨target, htarget⟩ := not_forall_not.mp hown
  obtain ⟨j, hj, rfl, d, hd⟩ := hsettled.sound.links i hi target htarget
  have hjown : j.Own := fun t ht => by rw [hd] at ht; cases ht
  exact own j hj hjown y.2 data (hrestores.links i hi _ htarget y.2 hf) hdata

def retriedActs : List Act :=
  [.call (.file (text ['/', 'f']) .zero), .call (.write (text ['/', 'f']) [1, 2]),
    .call (.dir (text ['/', 'd']) .zero), .call (.dir (text ['/', 'd']) .zero)]

def firstFails (k : Nat) : Faults := fun i => if i = 0 then some k else none

theorem retried_harmless :
    ∃ s', ((newSession rawConfig).run (firstFails 0) retriedActs).2.close (firstFails 0) = (none, s') ∧
      ∃ tree, Decodes (fun _ => none) s'.writer.out tree ∧
        FilesAsReported ((newSession rawConfig).run (firstFails 0) retriedActs).1 tree := by
  have hzero : ∀ i k, firstFails 0 i = some k → k = 0 := by
    intro i k hk
    rw [firstFails] at hk
    split at hk
    · cases hk
      rfl
    · cases hk
  -- The one write that fails is made by the first `CreateDir`.
  have hspared : (newSession rawConfig).AllSpared (firstFails 0) retriedActs := by
    refine ⟨?_, ?_, ?_, ?_, trivial⟩
    · exact fun i k _ hu _ => absurd (lt_of_lt_of_eq hu (by decide +kernel)) (Nat.not_lt_zero i)
    · exact fun i k _ hu _ => absurd (lt_of_lt_of_eq hu (by decide +kernel)) (Nat.not_lt_zero i)
    · exact fun i k _ _ hk => ⟨hzero i k hk, rfl⟩
    · exact fun i k _ _ hk => ⟨hzero i k hk, rfl⟩
  have hclosed : (((newSession rawConfig).run (firstFails 0) retriedActs).2.close
      (firstFails 0)).1.isNone = true := by decide +kernel
  obtain ⟨tree, hdecodes, hfiles, _⟩ := failed_writes_harmless
    (show withBlockSize rawConfig 4096 = .ok rawConfig from rfl)
    (rawCompressor_inverted fun _ => none)
    (show (newSession rawConfig).run (firstFails 0) retriedActs = (_, _) from rfl) hspared
    (by decide +kernel)
    (Prod.ext (isNone_iff_eq_none.mp hclosed) rfl)
  exact ⟨_, Prod.ext (isNone_iff_eq_none.mp hclosed) rfl, tree, hdecodes, hfiles⟩

theorem Session.run_acts (faults : Faults) (s : Session) (acts : List Act) :
    (s.run faults acts).1.map Prod.fst = acts := by
  induction acts generalizing s with
  | nil => rfl
  | cons a acts ih => exact congrArg (a :: ·) (ih _)

/-- One byte of the block is written before the write fails. The block is written again after it,
and the file is read from the first byte on. -/
theorem torn_block_stays :
    ∃ s' tree, ((newSession rawConfig).run (firstFails 1) retriedActs).2.close (firstFails 1) =
      (none, s') ∧ Decodes (fun _ => none) s'.writer.out tree ∧
        ¬FilesAsReported ((newSession rawConfig).run (firstFails 1) retriedActs).1 tree := by
  have hclosed : (((newSession rawConfig).run (firstFails 1) retriedActs).2.close
      (firstFails 1)).1.isNone = true := by decide +kernel
  have hread : (decode (fun _ => none) (((newSession rawConfig).run (firstFails 1)
      retriedActs).2.close (firstFails 1)).2.writer.out 3).any (fun tree =>
        tree.any fun x => x.2.content = .file [1, 1]) = true := by decide +kernel
  have hreported : reported ((newSession rawConfig).run (firstFails 1) retriedActs).1
      (text ['/', 'f']) = [1, 2] := by decide +kernel
  obtain ⟨tree, htree, hany⟩ := (any_eq_true _ _).mp hread
  obtain ⟨x, hx, hcontent⟩ := any_eq_true.mp hany
  refine ⟨_, tree, Prod.ext (isNone_iff_eq_none.mp hclosed) rfl, .of_decode htree, fun h => ?_⟩
  obtain ⟨q, a, r, hmem, _, _, hdata⟩ := h x hx _ (of_decide_eq_true hcontent)
  have hact : Act.call (.file q a) ∈ retriedActs := by
    rw [← Session.run_acts (firstFails 1) (newSession rawConfig) retriedActs]
    exact mem_map_of_mem hmem
  have hq : q = text ['/', 'f'] := by
    simp only [retriedActs, mem_cons, not_mem_nil, or_false, Act.call.injEq,
      Call.file.injEq, reduceCtorEq] at hact
    exact hact.1
  rw [hq, hreported] at hdata
  cases hdata

end Craftling.Squashfs
