import Craftling.Rootfs.TarNames
import Craftling.Squashfs.RoundTrip

namespace Craftling.Rootfs
open Effects Squashfs List

inductive TarType where
  | reg | dir | symlink | link | char | block | fifo | other

/-- An entry of a layer's tar. `size` is what its header declares, `data` what can be read. -/
structure TarEntry where
  name : Bytes
  type : TarType
  size : Int
  attrs : Attrs
  linkname : Bytes
  devmajor : UInt32
  devminor : UInt32
  data : Bytes

inductive BuildErr where
  | readHeader (text : String)
  | entryCountExceeded
  | totalBytesExceeded
  | rejectedName (name : Bytes)
  | emptyTarget (p : Bytes)
  | invalidTarget (p target : Bytes)
  | writer (e : Squashfs.Err)

def installDir : Bytes := text ['/', '.', 'c', 'r', 'a', 'f', 't', 'l', 'i', 'n', 'g']

def initPath : Bytes := installDir ++ text ['/', 'i', 'n', 'i', 't']

def tmpDir : Bytes := text ['/', 't', 'm', 'p']

def standardMountpoints : List Bytes :=
  [text ['/', 'p', 'r', 'o', 'c'], text ['/', 's', 'y', 's'], text ['/', 'd', 'e', 'v'], tmpDir,
    text ['/', 'r', 'u', 'n']]

def maxTarTotalBytes : Int := 16 * 2 ^ 30

def maxTarEntryCount : Nat := 2 ^ 20

def pipelineOwned (p : Bytes) : Bool := p = installDir || (installDir ++ [slash]).isPrefixOf p

/-- The calls that the writer is to get, the paths they create, and what of the tar was counted. -/
structure Builder where
  calls : List Call
  created : List Bytes
  entryCount : Nat
  totalBytes : Int

/-- A conversion that fails has given the writer some calls already. -/
abbrev Conversion := Except (List Call × BuildErr) Builder

namespace Builder

def fail (b : Builder) (e : BuildErr) : Conversion := .error (b.calls, e)

def create (b : Builder) (p : Bytes) (calls : List Call) : Builder :=
  { b with calls := b.calls ++ calls, created := p :: b.created }

def addDir (mode : UInt32) (b : Builder) (p : Bytes) : Builder :=
  if p ∈ b.created then b else b.create p [.dir p ⟨mode, 0, 0, .zero⟩]

/-- A directory and those above it, with the shallowest first. -/
def ancestorsFrom : Nat → Bytes → List Bytes
  | 0, _ => []
  | n + 1, cur => if cur = [slash] ∨ cur = dot then [] else ancestorsFrom n (pathDir cur) ++ [cur]

def ensureAncestors (b : Builder) (p : Bytes) : Builder :=
  (ancestorsFrom p.length (pathDir p)).foldl (addDir 0o755) b

def add (b : Builder) (p : Bytes) (h : TarEntry) : Conversion :=
  let attrs := { h.attrs with mode := h.attrs.mode &&& 0o777 }
  match h.type with
  | .reg =>
    let remaining := maxTarTotalBytes - b.totalBytes
    let data := h.data.take (remaining + 1).toNat
    let b := { b with totalBytes := b.totalBytes + data.length }
    let b := b.create p [.file p attrs, .write p data]
    if data.length > remaining then b.fail .totalBytesExceeded else .ok b
  | .dir => .ok (b.create p [.dir p attrs])
  | .symlink =>
    if h.linkname = [] then b.fail (.emptyTarget p)
    else .ok (b.create p [.symlink p attrs h.linkname])
  | .link =>
    match normalizeTarPath h.linkname with
    | some (c :: target) => .ok (b.create p [.hardlink p (c :: target)])
    | _ => b.fail (.invalidTarget p h.linkname)
  | .char => .ok (b.create p [.charDevice p attrs h.devmajor h.devminor])
  | .block => .ok (b.create p [.blockDevice p attrs h.devmajor h.devminor])
  | .fifo => .ok (b.create p [.fifo p attrs])
  | .other => .ok b

def entry (b : Builder) (h : TarEntry) : Conversion :=
  let b := { b with entryCount := b.entryCount + 1 }
  if maxTarEntryCount < b.entryCount then b.fail .entryCountExceeded
  else if 0 < h.size ∧ maxTarTotalBytes - b.totalBytes < h.size then b.fail .totalBytesExceeded
  else
    match normalizeTarPath h.name with
    | none => b.fail (.rejectedName h.name)
    | some p =>
      if p = [] ∨ pipelineOwned p = true ∨ p ∈ b.created then .ok b
      else (b.ensureAncestors p).add p h

/-- A tar ends well, or with an error of its reader. -/
def streamTarToSquashfs (tar : List TarEntry) (fault : Option String) : Conversion := do
  let b ← tar.foldlM entry ⟨[], [], 0, 0⟩
  match fault with
  | some text => b.fail (.readHeader text)
  | none => .ok b

def injectInit (b : Builder) (initBin : Bytes) : Builder :=
  (b.addDir 0o755 installDir).create initPath
    [.file initPath ⟨0o755, 0, 0, .zero⟩, .write initPath initBin]

def ensureStandardMountpoints (b : Builder) : Builder :=
  standardMountpoints.foldl (fun b p => b.addDir (if p = tmpDir then 0o1777 else 0o755) p) b

end Builder

/-- All calls that the writer is given, or those before an error of the tar. -/
def conversion (tar : List TarEntry) (fault : Option String) (initBin : Bytes) :
    Except (List Call × BuildErr) (List Call) :=
  (Builder.streamTarToSquashfs tar fault).map
    fun b => (b.injectInit initBin).ensureStandardMountpoints.calls

/-- An error of the writer ends the conversion before a later error of the tar does. -/
def buildSquashfs (cfg : Squashfs.Config) (tar : List TarEntry) (fault : Option String)
    (initBin : Bytes) : Except BuildErr Writer :=
  match conversion tar fault initBin with
  | .error (calls, e) =>
    match (newWriter cfg).run calls with
    | .error e => .error (.writer e)
    | .ok _ => .error e
  | .ok calls => ((newWriter cfg).run calls >>= Writer.close).mapError .writer

def callPath : Call → Bytes
  | .file p _ | .write p _ | .dir p _ | .symlink p _ _ | .hardlink p _ | .charDevice p _ _ _
  | .blockDevice p _ _ _ | .fifo p _ | .socket p _ => p

def ownedItems (calls : List Call) : List Item := (created calls).filter (pipelineOwned ·.path)

/-- `b'` has come from `b` without anything in the directory of the pipeline. -/
structure Builder.Beside (b b' : Builder) : Prop where
  items : ownedItems b'.calls = ownedItems b.calls
  fresh : installDir ∉ b.created → installDir ∉ b'.created

variable {b b' b1 : Builder} {p : Bytes} {calls : List Call} {items : List Item}

theorem Builder.Beside.trans (h : b.Beside b1) (h' : b1.Beside b') : b.Beside b' :=
  ⟨h'.items.trans h.items, h'.fresh ∘ h.fresh⟩

theorem write_owned (items : List Item) (p data : Bytes) :
    (itemsAfter items (.write p data)).filter (pipelineOwned ·.path) =
      itemsAfter (items.filter (pipelineOwned ·.path)) (.write p data) := by
  have hpath : ∀ i : Item, (if i.path = p then i.append data else i).path = i.path := by
    intro i
    unfold Item.append
    repeat' split
    all_goals rfl
  simp only [itemsAfter, filter_map, Function.comp_def, hpath]

theorem calls_owned (hc : ∀ c ∈ calls, pipelineOwned (callPath c) = false) :
    (calls.foldl itemsAfter items).filter (pipelineOwned ·.path) =
      items.filter (pipelineOwned ·.path) := by
  induction calls generalizing items with
  | nil => rfl
  | cons c calls ih =>
    rw [foldl_cons, ih fun c hm => hc c (mem_cons_of_mem _ hm)]
    have hp := hc c mem_cons_self
    cases c with
    | write p data =>
      rw [write_owned]
      refine (map_congr_left fun i hi => if_neg ?_).trans (map_id _)
      rintro rfl
      exact absurd (of_mem_filter hi) (by simpa [callPath] using hp)
    | _ => simpa [itemsAfter, callPath] using hp

theorem Builder.Beside.create (hp : pipelineOwned p = false) (hc : ∀ c ∈ calls, callPath c = p) :
    b.Beside (b.create p calls) := by
  constructor
  · simp only [ownedItems, Squashfs.created, Builder.create, foldl_append]
    exact calls_owned fun c hm => (hc c hm).symm ▸ hp
  · intro hn hi
    rcases mem_cons.mp hi with rfl | hi
    · cases hp
    · exact hn hi

theorem Builder.Beside.dirs (mode : Bytes → UInt32) (ps : List Bytes)
    (hp : ∀ p ∈ ps, pipelineOwned p = false) :
    b.Beside (ps.foldl (fun b p => b.addDir (mode p) p) b) := by
  induction ps generalizing b with
  | nil => exact ⟨rfl, id⟩
  | cons p ps ih =>
    have hd : b.Beside (b.addDir (mode p) p) := by
      unfold Builder.addDir
      split
      · exact ⟨rfl, id⟩
      · exact .create (hp p mem_cons_self) (by simp [callPath])
    exact hd.trans (ih fun q hq => hp q (mem_cons_of_mem _ hq))

theorem pipelineOwned_append {rest : Bytes} (hr : rest.head? = some slash ∨ rest = [])
    (hp : pipelineOwned p = true) : pipelineOwned (p ++ rest) = true := by
  simp only [pipelineOwned, Bool.or_eq_true, decide_eq_true_eq, isPrefixOf_iff_prefix] at hp ⊢
  rcases hp with rfl | hp
  · rcases hr with hr | rfl
    · obtain ⟨tail, rfl⟩ := head?_eq_some_iff.mp hr
      exact .inr ⟨tail, by simp⟩
    · exact .inl (append_nil _)
  · exact .inr (hp.trans (prefix_append ..))

/-- What is above a path that is not the pipeline's is not the pipeline's either. -/
theorem ancestors_free {rest : Bytes} (hs : Canonical segs)
    (hr : rest.head? = some slash ∨ rest = [])
    (hp : pipelineOwned (segs.flatMap (slash :: ·) ++ rest) = false) :
    ∀ a ∈ Builder.ancestorsFrom n (render segs), pipelineOwned a = false := by
  induction n generalizing segs rest with
  | zero => exact fun a ha => absurd ha not_mem_nil
  | succ n ih =>
    intro a ha
    rw [Builder.ancestorsFrom] at ha
    split at ha
    · cases ha
    rename_i hroot
    rcases eq_nil_or_concat segs with rfl | ⟨ds, c, rfl⟩
    · exact absurd (.inl rfl) hroot
    rw [concat_eq_append] at *
    rcases mem_append.mp ha with ha | ha
    · rw [pathDir_render hs] at ha
      exact ih hs.init (.inl rfl) (by simpa using hp) a ha
    · rw [mem_singleton.mp ha, render, if_neg (by simp), Bool.eq_false_iff]
      intro ho
      exact Bool.false_ne_true (hp.symm.trans (pipelineOwned_append hr ho))

theorem Builder.Beside.add (hp : pipelineOwned p = false) (h : b.add p e = .ok b') :
    b.Beside b' := by
  have hc : ∀ {n calls}, (∀ c ∈ calls, callPath c = p) →
      (.ok (Builder.create { b with totalBytes := n } p calls) : Conversion) = .ok b' →
        b.Beside b' := by
    intro n calls hc h
    cases h
    have hn : b.Beside { b with totalBytes := n } := ⟨rfl, id⟩
    exact hn.trans (.create hp hc)
  simp only [Builder.add, Builder.fail] at h
  repeat' split at h
  all_goals first | cases h; done | exact hc (by simp [callPath]) h | cases h; exact ⟨rfl, id⟩

theorem Builder.Beside.entry (h : b.entry e = .ok b') : b.Beside b' := by
  simp only [Builder.entry, Builder.fail] at h
  split at h
  · cases h
  split at h
  · cases h
  split at h
  · cases h
  rename_i p hn
  split at h
  · cases h
    exact ⟨rfl, id⟩
  rename_i hskip
  simp only [not_or, Bool.not_eq_true] at hskip
  obtain ⟨hne, hp, -⟩ := hskip
  have hroot : ¬ArchiveRoot e.name := by
    intro hr
    rw [normalizeTarPath_root hr] at hn
    exact hne (Option.some.inj hn).symm
  obtain ⟨-, segs, hform, rfl⟩ := (normalizeTarPath_eq_some_iff hroot).mp hn
  obtain ⟨ds, c, rfl⟩ := (eq_nil_or_concat segs).resolve_left hform.nonempty
  rw [concat_eq_append] at *
  have hup : ∀ b : Builder, b.Beside (b.ensureAncestors (render (ds ++ [c]))) := by
    intro b
    refine .dirs (fun _ => 0o755) _ ?_
    rw [pathDir_render hform.names]
    rw [render_concat] at hp
    exact ancestors_free hform.names.init (.inl rfl) hp
  have hcount : b.Beside { b with entryCount := b.entryCount + 1 } := ⟨rfl, id⟩
  exact (hcount.trans (hup _)).trans (.add hp h)

theorem ownedItems_conversion (h : conversion tar fault initBin = .ok calls) :
    ownedItems calls =
      [⟨installDir, ⟨0o755, 0, 0, .zero⟩, .dir⟩,
        ⟨initPath, ⟨0o755, 0, 0, .zero⟩, .file initBin⟩] := by
  unfold conversion at h
  cases hb : Builder.streamTarToSquashfs tar fault with
  | error e => rw [hb] at h; cases h
  | ok b =>
    rw [hb] at h
    cases h
    obtain ⟨b0, h0, hf⟩ := bind_eq_ok.mp hb
    split at hf
    · cases hf
    cases hf
    have hin := foldlM_invariant (I := fun _ b => Builder.Beside _ b) ⟨rfl, id⟩
      (fun _ _ _ _ _ _ hb h => hb.trans (.entry h)) h0
    have hend : (b.injectInit initBin).Beside _ :=
      .dirs (fun p => if p = tmpDir then 0o1777 else 0o755) standardMountpoints (by decide)
    have hnone : (b.calls.foldl itemsAfter []).filter (pipelineOwned ·.path) = [] := hin.items
    refine hend.items.trans ?_
    simp only [ownedItems, created, Builder.injectInit, Builder.addDir,
      if_neg (hin.fresh not_mem_nil), Builder.create, foldl_append, foldl_cons, foldl_nil,
      write_owned]
    simp only [itemsAfter, filter_append, hnone]
    rfl

/-- Whatever the layers hold, all that an image has in the pipeline's directory is the directory
itself and the init binary, as it was given, with mode 0755 and owned by root. -/
theorem init_from_pipeline {expand : Bytes → Option Bytes} {cfg : Squashfs.Config} {w : Writer}
    (hcfg : cfg.Good expand) (hcalls : conversion tar fault initBin = .ok calls)
    (hfew : (created calls).length ≤ 2 ^ 22) (h : buildSquashfs cfg tar fault initBin = .ok w) :
    ∃ tree, Decodes expand w.out tree ∧
      ((tree.map Prod.fst).filter pipelineOwned).Perm [installDir, initPath] ∧
      (∀ f, (installDir, f) ∈ tree → Shows cfg ⟨0o755, 0, 0, .zero⟩ .dir f) ∧
      ∀ f, (initPath, f) ∈ tree → Shows cfg ⟨0o755, 0, 0, .zero⟩ (.file initBin) f := by
  unfold buildSquashfs at h
  rw [hcalls] at h
  obtain ⟨w0, hrun, hclose⟩ := bind_eq_ok.mp (mapError_eq_ok.mp h)
  obtain ⟨htells, hsame⟩ := run_spec hcfg hrun
  obtain ⟨w1, l, hsettled, hsame1, hlayout, hout⟩ := close_ok (hsame ▸ hcfg) htells hclose
  have hcfg1 : w1.cfg = cfg := hsame1.trans hsame
  have hdirs : ∀ dir, (childrenOf w1.entries dir).length ≤ 2 ^ 22 := fun dir =>
    (length_childrenOf_le ..).trans (hsettled.entries.length_eq ▸ hfew)
  obtain ⟨tree, hdecodes, hr, -⟩ := image_decodes (hcfg1 ▸ hcfg) hsettled hdirs hlayout
  rw [hcfg1] at hr
  have hitems := ownedItems_conversion hcalls
  have hown : ∀ i ∈ ownedItems calls, _ := fun i hi => hr.own i (mem_of_mem_filter hi)
  rw [hitems, forall_mem_cons, forall_mem_singleton] at hown
  refine ⟨tree, hout ▸ hdecodes, ?_, hown.1 (by simp [Item.Own]), hown.2 (by simp [Item.Own])⟩
  refine (hr.paths.filter _).trans (.of_eq ?_)
  rw [filter_cons_of_neg (by decide), filter_map]
  exact congrArg (map Item.path) hitems

/-- A layer that brings an init of its own, and a file in a directory that it leaves out. -/
def hostileLayer : List TarEntry :=
  [⟨initPath.tail, .reg, 1, ⟨0o755, 0, 0, .zero⟩, [], 0, 0, [9]⟩,
    ⟨text ['a', '/', 'b'], .reg, 1, ⟨0o644, 0, 0, .zero⟩, [], 0, 0, [7]⟩]

theorem init_from_pipeline_hostile : ∃ w tree,
    buildSquashfs rawConfig hostileLayer none [1, 2] = .ok w ∧
      Decodes (fun _ => none) w.out tree ∧
      ((tree.map Prod.fst).filter pipelineOwned).Perm [installDir, initPath] := by
  obtain ⟨w, hw⟩ : ∃ w, buildSquashfs rawConfig hostileLayer none [1, 2] = .ok w :=
    exists_of_isOk (by decide +kernel)
  obtain ⟨calls, hcalls⟩ : ∃ calls, conversion hostileLayer none [1, 2] = .ok calls :=
    exists_of_isOk (by decide +kernel)
  have hfew : ((conversion hostileLayer none [1, 2]).toOption.all
      fun calls => (created calls).length ≤ 2 ^ 22) = true := by decide +kernel
  rw [hcalls] at hfew
  obtain ⟨tree, hd, hp, -⟩ := init_from_pipeline
    ⟨rawCompressor_inverted fun _ => none, by decide, by decide⟩ hcalls (of_decide_eq_true hfew) hw
  exact ⟨w, tree, hw, hd, hp⟩

end Craftling.Rootfs
