import Mathlib

namespace Craftling.Minecraft
open List Bool

abbrev Text := List Char

/-- Each section sign goes with the character behind it, which is not the end of a line. -/
def stripColors : Text → Text
  | [] => []
  | [c] => [c]
  | c :: x :: rest => if c = '§' ∧ x ≠ '\n' then stripColors rest else c :: stripColors (x :: rest)

def afterColon (body : Text) : Option Text :=
  match body.dropWhile (· ≠ ':') with
  | [] => none
  | _ :: rest => some rest

def spaces : Text :=
  ['\t', '\n', '\x0b', '\x0c', '\r', ' ', '\u0085', '\u00a0', '\u1680', '\u2028', '\u2029', '\u202f',
    '\u205f', '\u3000']

def isSpace (c : Char) : Bool := c ∈ spaces || ('\u2000' ≤ c && c ≤ '\u200a')

def trimSpace (t : Text) : Text := (t.dropWhile isSpace).rdropWhile isSpace

def trimDots (t : Text) : Text := t.rdropWhile (· = '.')

def readPart (part : Text) : Option Text :=
  match trimSpace (trimDots (trimSpace part)) with
  | [] => none
  | name => some name

def parseWhitelist (body : Text) : List Text :=
  match afterColon (stripColors body) with
  | none => []
  | some rest => (rest.splitOn ',').filterMap readPart

/-- Names are of ASCII letters, digits and underscores: no other letter needs a lower case. -/
def lower (t : Text) : Text := t.map Char.toLower

abbrev Index := AList fun _ : Text => Text

def lowerIndex (names : List Text) : Index :=
  names.foldl (fun m n =>
    match trimSpace n with
    | [] => m
    | n => m.insert (lower n) n) ∅

structure IterOrder where
  arrange : List (Sigma fun _ : Text => Text) → List (Sigma fun _ : Text => Text)
  perm : ∀ entries, (arrange entries).Perm entries

def IterOrder.asStored : IterOrder := ⟨id, fun _ => .rfl⟩

inductive Command where
  | add (name : Text)
  | remove (name : Text)
  | on
  | off
  deriving DecidableEq

def addWords : Text := "whitelist add ".toList

def removeWords : Text := "whitelist remove ".toList

def Command.text : Command → Text
  | .add name => addWords ++ name
  | .remove name => removeWords ++ name
  | .on => "whitelist on".toList
  | .off => "whitelist off".toList

def missingFrom (order : IterOrder) (m other : Index) : List Text :=
  (((order.arrange m.entries).filter fun e => e.1 ∉ other).map Sigma.snd).insertionSort (· ≤ ·)

def syncCommands (order : IterOrder) (current desired : List Text) : List Command :=
  let curByLower := lowerIndex current
  let desByLower := lowerIndex desired
  (missingFrom order desByLower curByLower).map .add ++
    (missingFrom order curByLower desByLower).map .remove ++
    [if desByLower.entries.length = 0 then .off else .on]

def whitelistSyncCommands (order : IterOrder) (current desired : List Text) : List Text :=
  (syncCommands order current desired).map Command.text

structure Server where
  names : List Text
  enforced : Bool
  deriving DecidableEq

def Listed (name : Text) (names : List Text) : Prop := ∃ n ∈ names, lower n = lower name

instance (name : Text) (names : List Text) : Decidable (Listed name names) := by
  unfold Listed
  infer_instance

def Server.apply (s : Server) : Command → Server
  | .add name => if Listed name s.names then s else { s with names := s.names ++ [name] }
  | .remove name => { s with names := s.names.filter fun n => lower n ≠ lower name }
  | .on => { s with enforced := true }
  | .off => { s with enforced := false }

def readCommand (t : Text) : Option Command :=
  match t.dropPrefix? addWords with
  | some name => some (.add name)
  | none =>
    match t.dropPrefix? removeWords with
    | some name => some (.remove name)
    | none =>
      if t = "whitelist on".toList then some .on
      else if t = "whitelist off".toList then some .off
      else none

/-- A text that is no command changes nothing. -/
def Server.exec (s : Server) (t : Text) : Server :=
  match readCommand t with
  | none => s
  | some c => s.apply c

def Server.execAll (s : Server) (ts : List Text) : Server := ts.foldl Server.exec s

def isWord (c : Char) : Bool :=
  ('a' ≤ c && c ≤ 'z') || ('A' ≤ c && c ≤ 'Z') || ('0' ≤ c && c ≤ '9') || c = '_'

def isUsername (t : Text) : Bool := 3 ≤ t.length && t.length ≤ 16 && t.all isWord

def ending (period : Bool) : Text := if period then ['.'] else []

inductive Plain : List Text → Text → Prop where
  | listed (names : List Text) (header : Text) (period : Bool) : ':' ∉ header →
      Plain names (header ++ ": ".toList ++ ", ".toList.intercalate names ++ ending period)
  | none (text : Text) : ':' ∉ text → Plain [] text

inductive Colored : Text → Text → Prop where
  | nil : Colored [] []
  | char (c : Char) {t body : Text} : c ≠ '§' → Colored t body → Colored (c :: t) (c :: body)
  | code (x : Char) {t body : Text} : x ≠ '\n' → Colored t body → Colored t ('§' :: x :: body)

def Shows (names : List Text) (body : Text) : Prop := ∃ t, Plain names t ∧ Colored t body

section Reading

variable {c : Char} {body t : Text}

theorem stripColors_cons (hc : c ≠ '§') (body : Text) :
    stripColors (c :: body) = c :: stripColors body := by
  cases body with
  | nil => rfl
  | cons x rest => rw [stripColors, if_neg fun h => hc h.1]

theorem Colored.strip (h : Colored t body) : stripColors body = t := by
  induction h with
  | nil => rfl
  | char c hc _ ih => rw [stripColors_cons hc, ih]
  | code x hx _ ih => rw [stripColors, if_pos ⟨rfl, hx⟩, ih]

theorem afterColon_none (h : ':' ∉ t) : afterColon t = none := by
  have ha : t.dropWhile (· ≠ ':') = [] := by
    rw [dropWhile_eq_nil_iff]
    intro c hc
    exact decide_eq_true fun he => h (he ▸ hc)
  rw [afterColon, ha]

theorem afterColon_some {header : Text} (h : ':' ∉ header) (rest : Text) :
    afterColon (header ++ ':' :: rest) = some rest := by
  have hd : (header ++ ':' :: rest).dropWhile (· ≠ ':') = ':' :: rest := by
    rw [dropWhile_append_of_pos]
    · rfl
    · intro c hc
      exact decide_eq_true fun he => h (he ▸ hc)
  rw [afterColon, hd]

theorem rdropWhile_self (h : ∀ c ∈ t, p c = false) : t.rdropWhile p = t := by
  rw [rdropWhile_eq_self_iff]
  intro hn
  rw [h _ (getLast_mem hn)]
  exact false_ne_true

theorem trimSpace_self (h : ∀ c ∈ t, isSpace c = false) : trimSpace t = t := by
  have hd : t.dropWhile isSpace = t := by
    rw [dropWhile_eq_self_iff]
    intro hl
    rw [h _ (getElem_mem hl)]
    exact false_ne_true
  rw [trimSpace, hd, rdropWhile_self h]

theorem trimSpace_blank (t : Text) : trimSpace (' ' :: t) = trimSpace t := rfl

theorem isWord_le (h : isWord c = true) : c ≤ 'z' := by
  simp only [isWord, or_eq_true, and_eq_true, decide_eq_true_eq] at h
  rcases h with ((h | h) | h) | h
  · exact h.2
  · exact Char.le_trans h.2 (by decide)
  · exact Char.le_trans h.2 (by decide)
  · rw [h]
    decide

theorem isWord_plain (h : isWord c = true) : isSpace c = false ∧ c ≠ '.' ∧ c ≠ ',' := by
  have hn : ∀ x, isWord x = false → c ≠ x := by
    rintro x hx rfl
    rw [h] at hx
    cases hx
  refine ⟨?_, hn '.' (by decide), hn ',' (by decide)⟩
  rw [isSpace, Bool.or_eq_false_iff]
  constructor
  · have ha : ∀ x ∈ spaces, isWord x = false := by simp [spaces, isWord]
    rw [decide_eq_false_iff_not]
    exact fun hm => hn c (ha c hm) rfl
  · have hno : ¬ '\u2000' ≤ c := fun hl => absurd (Char.le_trans hl (isWord_le h)) (by decide)
    rw [decide_eq_false hno, Bool.false_and]

variable {n : Text} {names : List Text}

section

variable (h : isUsername n = true)
include h

theorem isUsername_ne_nil : n ≠ [] := by
  rintro rfl
  cases h

theorem isUsername_chars : ∀ c ∈ n, isSpace c = false ∧ c ≠ '.' ∧ c ≠ ',' := by
  rw [isUsername, and_eq_true, all_eq_true] at h
  exact fun c hc => isWord_plain (h.2 c hc)

theorem trimSpace_username : trimSpace n = n :=
  trimSpace_self fun c hc => (isUsername_chars h c hc).1

theorem trimDots_username : trimDots n = n :=
  rdropWhile_self fun c hc => decide_eq_false (isUsername_chars h c hc).2.1

theorem trim_part (period : Bool) :
    trimSpace (trimDots (trimSpace (' ' :: (n ++ ending period)))) = n := by
  rw [trimSpace_blank]
  cases period with
  | false =>
    rw [show n ++ ending false = n from append_nil n, trimSpace_username h, trimDots_username h,
      trimSpace_username h]
  | true =>
    have hs : trimSpace (n ++ ending true) = n ++ ['.'] := by
      apply trimSpace_self
      intro c hc
      rcases mem_append.mp hc with hc | hc
      · exact (isUsername_chars h c hc).1
      · rw [mem_singleton.mp hc]
        decide
    have hd : trimDots (n ++ ['.']) = n := by
      rw [trimDots, rdropWhile_concat_pos _ _ _ (by decide)]
      exact trimDots_username h
    rw [hs, hd, trimSpace_username h]

theorem readPart_name (period : Bool) : readPart (' ' :: (n ++ ending period)) = some n := by
  rw [readPart, trim_part h]
  split
  · exact absurd rfl (isUsername_ne_nil h)
  · rfl

end

def parts (period : Bool) : List Text → List Text
  | [] => []
  | [n] => [' ' :: (n ++ ending period)]
  | n :: m :: rest => (' ' :: (n ++ ending false)) :: parts period (m :: rest)

theorem intercalate_parts (period : Bool) (n : Text) (rest : List Text) :
    [','].intercalate (parts period (n :: rest)) =
      ' ' :: (", ".toList.intercalate (n :: rest) ++ ending period) := by
  induction rest generalizing n with
  | nil => simp [parts]
  | cons m rest ih =>
    have hn : parts period (m :: rest) ≠ [] := by
      cases rest <;> exact cons_ne_nil _ _
    rw [parts, intercalate_cons_of_ne_nil hn, ih, intercalate_cons_cons]
    simp [ending]

section

variable (h : ∀ n ∈ names, isUsername n = true) (period : Bool)
include h

theorem filterMap_parts : (parts period names).filterMap readPart = names := by
  fun_induction parts period names with
  | case1 => rfl
  | case2 n =>
    rw [filterMap_cons, readPart_name (h n (mem_singleton_self n))]
    rfl
  | case3 n m rest ih =>
    rw [filterMap_cons, readPart_name (h n (.head _)), ih fun x hx => h x (.tail _ hx)]

theorem comma_not_mem_parts : ∀ part ∈ parts period names, ',' ∉ part := by
  have hpa : ∀ n period, isUsername n = true → ',' ∉ ' ' :: (n ++ ending period) := by
    intro n period hn hm
    rcases mem_append.mp ((mem_cons.mp hm).resolve_left (by decide)) with hm | hm
    · exact (isUsername_chars hn ',' hm).2.2 rfl
    · revert hm
      cases period <;> decide
  fun_induction parts period names with
  | case1 => exact nofun
  | case2 n =>
    intro part hp
    rw [mem_singleton.mp hp]
    exact hpa n period (h n (mem_singleton_self n))
  | case3 n m rest ih =>
    intro part hp
    rcases mem_cons.mp hp with rfl | hp
    · exact hpa n false (h n (.head _))
    · exact ih (fun x hx => h x (.tail _ hx)) part hp

theorem read_listing :
    ((' ' :: (", ".toList.intercalate names ++ ending period)).splitOn ',').filterMap readPart =
      names := by
  cases names with
  | nil => cases period <;> decide
  | cons n rest =>
    have hn : parts period (n :: rest) ≠ [] := by
      cases rest <;> exact cons_ne_nil _ _
    rw [← intercalate_parts, splitOn_intercalate _ (comma_not_mem_parts h period) hn,
      filterMap_parts h]

end

theorem parseWhitelist_shows (h : Shows names body) (hn : ∀ n ∈ names, isUsername n = true) :
    parseWhitelist body = names := by
  obtain ⟨t, hp, hc⟩ := h
  rw [parseWhitelist, hc.strip]
  cases hp with
  | listed _ header period hh =>
    have hs : header ++ ": ".toList ++ ", ".toList.intercalate names ++ ending period =
        header ++ ':' :: ' ' :: (", ".toList.intercalate names ++ ending period) := by
      simp
    rw [hs, afterColon_some hh]
    exact read_listing hn period
  | none _ ht => rw [afterColon_none ht]

end Reading

section Maps

variable {names xs ys : List Text} {order : IterOrder} {k v : Text}

theorem lowerIndex_concat (hn : isUsername n = true) :
    lowerIndex (names ++ [n]) = (lowerIndex names).insert (lower n) n := by
  rw [lowerIndex, foldl_append]
  show (match trimSpace n with
    | [] => lowerIndex names
    | n => (lowerIndex names).insert (lower n) n) = _
  rw [trimSpace_username hn]
  split
  · exact absurd rfl (isUsername_ne_nil hn)
  · rfl

theorem lookup_lowerIndex (h : ∀ n ∈ names, isUsername n = true)
    (hv : (lowerIndex names).lookup k = some v) : v ∈ names ∧ lower v = k := by
  induction names using List.reverseRecOn with
  | nil => cases hv
  | append_singleton names n ih =>
    rw [lowerIndex_concat (h n (mem_append_right _ (mem_singleton_self n)))] at hv
    by_cases hk : k = lower n
    · subst hk
      rw [AList.lookup_insert] at hv
      rw [← Option.some.inj hv]
      exact ⟨mem_append_right _ (mem_singleton_self n), rfl⟩
    · rw [AList.lookup_insert_ne hk] at hv
      obtain ⟨hme, hl⟩ := ih (fun m hm => h m (mem_append_left _ hm)) hv
      exact ⟨mem_append_left _ hme, hl⟩

theorem mem_lowerIndex (h : ∀ n ∈ names, isUsername n = true) :
    k ∈ lowerIndex names ↔ ∃ n ∈ names, lower n = k := by
  induction names using List.reverseRecOn with
  | nil => simp [lowerIndex]
  | append_singleton names n ih =>
    rw [lowerIndex_concat (h n (mem_append_right _ (mem_singleton_self n))),
      AList.mem_insert, ih fun m hm => h m (mem_append_left _ hm)]
    constructor
    · rintro (rfl | ⟨m, hm, hl⟩)
      · exact ⟨n, mem_append_right _ (mem_singleton_self n), rfl⟩
      · exact ⟨m, mem_append_left _ hm, hl⟩
    rintro ⟨m, hm, hl⟩
    rcases mem_append.mp hm with hm | hm
    · exact .inr ⟨m, hm, hl⟩
    · rw [mem_singleton.mp hm] at hl
      exact .inl hl.symm

theorem mem_missingFrom {m other : Index} :
    v ∈ missingFrom order m other ↔ ∃ k, m.lookup k = some v ∧ k ∉ other := by
  rw [missingFrom, mem_insertionSort, mem_map]
  constructor
  · rintro ⟨⟨k, v⟩, hm, rfl⟩
    obtain ⟨he, hn⟩ := mem_filter.mp hm
    exact ⟨k, AList.mem_lookup_iff.mpr ((order.perm _).mem_iff.mp he), of_decide_eq_true hn⟩
  · rintro ⟨k, hv, hn⟩
    refine ⟨⟨k, v⟩, mem_filter.mpr ⟨?_, decide_eq_true hn⟩, rfl⟩
    exact (order.perm _).mem_iff.mpr (AList.mem_lookup_iff.mp hv)

theorem of_mem_missing (hx : ∀ n ∈ xs, isUsername n = true) (hy : ∀ n ∈ ys, isUsername n = true)
    (hv : v ∈ missingFrom order (lowerIndex xs) (lowerIndex ys)) : v ∈ xs ∧ ¬Listed v ys := by
  obtain ⟨k, hl, hn⟩ := mem_missingFrom.mp hv
  obtain ⟨hm, rfl⟩ := lookup_lowerIndex hx hl
  exact ⟨hm, fun hli => hn ((mem_lowerIndex hy).mpr hli)⟩

theorem missing_of_not_listed (order : IterOrder) (hx : ∀ n ∈ xs, isUsername n = true)
    (hy : ∀ n ∈ ys, isUsername n = true) (hm : x ∈ xs) (hn : ¬Listed x ys) :
    Listed x (missingFrom order (lowerIndex xs) (lowerIndex ys)) := by
  have hk : lower x ∈ lowerIndex xs := (mem_lowerIndex hx).mpr ⟨x, hm, rfl⟩
  obtain ⟨v, hv⟩ := Option.isSome_iff_exists.mp (AList.lookup_isSome.mpr hk)
  refine ⟨v, mem_missingFrom.mpr ⟨lower x, hv, fun ho => ?_⟩, (lookup_lowerIndex hx hv).2⟩
  exact hn ((mem_lowerIndex hy).mp ho)

theorem missingFrom_order (order order' : IterOrder) (m other : Index) :
    missingFrom order m other = missingFrom order' m other := by
  refine List.Perm.eq_of_pairwise (fun a b _ _ => le_antisymm) (pairwise_insertionSort _ _)
    (pairwise_insertionSort _ _) ?_
  refine (perm_insertionSort _ _).trans (List.Perm.trans ?_ (perm_insertionSort _ _).symm)
  exact (((order.perm _).trans (order'.perm _).symm).filter _).map _

theorem lowerIndex_empty_iff (h : ∀ n ∈ names, isUsername n = true) :
    (lowerIndex names).entries.length = 0 ↔ names = [] := by
  constructor
  · intro hl
    cases names with
    | nil => rfl
    | cons n rest =>
      have hk := (mem_lowerIndex h).mpr ⟨n, mem_cons_self .., rfl⟩
      rw [AList.mem_keys, AList.keys, List.keys, eq_nil_of_length_eq_zero hl] at hk
      cases hk
  · rintro rfl
    rfl

end Maps

section Running

variable {s : Server} {names : List Text} {n : Text}

theorem dropPrefix?_words (words name : Text) : (words ++ name).dropPrefix? words = some name :=
  List.dropPrefix?_append_of_beq name (beq_self_eq_true words)

theorem add_not_remove (name : Text) : (removeWords ++ name).dropPrefix? addWords = none := by
  cases hd : (removeWords ++ name).dropPrefix? addWords with
  | none => rfl
  | some rest =>
    -- they part at the eleventh character
    obtain ⟨words, he, hw⟩ := List.dropPrefix?_eq_some_iff.mp hd
    rw [eq_of_beq hw] at he
    have hc : (removeWords ++ name)[10]? = (addWords ++ rest)[10]? := by rw [he]
    rw [List.getElem?_append_left (by decide), List.getElem?_append_left (by decide)] at hc
    exact absurd hc (by decide)

theorem readCommand_text (c : Command) : readCommand c.text = some c := by
  cases c with
  | on => rfl
  | off => rfl
  | add name =>
    unfold readCommand Command.text
    simp only [dropPrefix?_words]
  | remove name =>
    unfold readCommand Command.text
    simp only [add_not_remove, dropPrefix?_words]

theorem execAll_text (cmds : List Command) :
    s.execAll (cmds.map Command.text) = cmds.foldl Server.apply s := by
  rw [Server.execAll, foldl_map]
  congr 1
  funext s c
  rw [Server.exec, readCommand_text]

theorem Listed.of_mem (h : n ∈ names) : Listed n names := ⟨n, h, rfl⟩

theorem Listed.congr (h : Listed n names) (he : lower n = lower m) : Listed m names := by
  obtain ⟨x, hx, hl⟩ := h
  exact ⟨x, hx, hl.trans he⟩

theorem apply_add (name : Text) : (∀ n ∈ s.names, n ∈ (s.apply (.add name)).names) ∧
      (∀ n ∈ (s.apply (.add name)).names, n ∈ s.names ∨ n = name) ∧
      Listed name (s.apply (.add name)).names := by
  rw [Server.apply]
  split
  · rename_i hl
    exact ⟨fun _ h => h, fun _ h => .inl h, hl⟩
  · refine ⟨fun n h => mem_append_left _ h, fun n h => ?_, ?_⟩
    · exact (mem_append.mp h).imp_right mem_singleton.mp
    · exact .of_mem (mem_append_right _ (mem_singleton_self name))

theorem foldl_adds (adds : List Text) : let s' := (adds.map Command.add).foldl Server.apply s
    (∀ n ∈ s.names, n ∈ s'.names) ∧ (∀ n ∈ s'.names, n ∈ s.names ∨ n ∈ adds) ∧
      ∀ a ∈ adds, Listed a s'.names := by
  induction adds generalizing s with
  | nil => exact ⟨fun _ h => h, fun _ h => .inl h, nofun⟩
  | cons a adds ih =>
    obtain ⟨hk, ho, ha⟩ := @ih (s.apply (.add a))
    obtain ⟨hk1, ho1, ⟨m, hm, hl⟩⟩ := apply_add (s := s) a
    refine ⟨fun n hn => hk n (hk1 n hn), fun n hn => ?_, fun b hb => ?_⟩
    · rcases ho n hn with hol | hne
      · rcases ho1 n hol with hol | rfl
        · exact .inl hol
        · exact .inr (.head _)
      · exact .inr (.tail _ hne)
    · rcases mem_cons.mp hb with rfl | hb
      · exact ⟨m, hk m hm, hl⟩
      · exact ha b hb

theorem mem_foldl_removes (removes : List Text) :
    n ∈ ((removes.map Command.remove).foldl Server.apply s).names ↔
      n ∈ s.names ∧ ¬Listed n removes := by
  induction removes generalizing s with
  | nil => simp [Listed]
  | cons r removes ih =>
    rw [map_cons, foldl_cons, ih]
    have ha : n ∈ (s.apply (.remove r)).names ↔ n ∈ s.names ∧ lower n ≠ lower r := by
      rw [Server.apply, mem_filter, decide_eq_true_eq]
    rw [ha]
    constructor
    · rintro ⟨⟨hn, hne⟩, hno⟩
      refine ⟨hn, fun ⟨x, hx, hl⟩ => ?_⟩
      rcases mem_cons.mp hx with rfl | hx
      · exact hne hl.symm
      · exact hno ⟨x, hx, hl⟩
    · rintro ⟨hn, hno⟩
      refine ⟨⟨hn, fun hl => hno ⟨r, mem_cons_self .., hl.symm⟩⟩, ?_⟩
      exact fun ⟨x, hx, hl⟩ => hno ⟨x, mem_cons_of_mem _ hx, hl⟩

theorem mem_foldl_of_spared {cmds : List Command} (hn : n ∈ s.names)
    (h : ∀ r, .remove r ∈ cmds → lower n ≠ lower r) : n ∈ (cmds.foldl Server.apply s).names := by
  induction cmds generalizing s with
  | nil => exact hn
  | cons c cmds ih =>
    refine ih ?_ fun r hr => h r (.tail _ hr)
    cases c with
    | add name => exact (apply_add name).1 n hn
    | remove r =>
      exact mem_filter.mpr ⟨hn, decide_eq_true (h r (.head _))⟩
    | on | off => exact hn

end Running

section Syncing

variable {live desired : List Text} {order : IterOrder}

def toggle (desired : List Text) : Command := if desired = [] then .off else .on

theorem syncCommands_eq (hd : ∀ n ∈ desired, isUsername n = true) :
    syncCommands order live desired =
      (missingFrom order (lowerIndex desired) (lowerIndex live)).map .add ++
        (missingFrom order (lowerIndex live) (lowerIndex desired)).map .remove ++ [toggle desired] := by
  simp only [syncCommands, toggle, lowerIndex_empty_iff hd]

theorem foldl_toggle (s : Server) (desired : List Text) :
    [toggle desired].foldl Server.apply s = ⟨s.names, !desired.isEmpty⟩ := by
  cases desired <;> rfl

theorem synced_names (order : IterOrder) (hl : ∀ n ∈ live, isUsername n = true)
    (hde : ∀ n ∈ desired, isUsername n = true) (enforced : Bool) :
    let s' := (syncCommands order live desired).foldl Server.apply ⟨live, enforced⟩
    (∀ n ∈ s'.names, n ∈ live ∨ n ∈ desired) ∧ ∀ x, Listed x s'.names ↔ Listed x desired := by
  rw [syncCommands_eq hde, foldl_append, foldl_append, foldl_toggle]
  generalize hs : ((missingFrom order (lowerIndex desired) (lowerIndex live)).map
    Command.add).foldl Server.apply ⟨live, enforced⟩ = s
  obtain ⟨hk, ho, hal⟩ := hs ▸ foldl_adds (s := ⟨live, enforced⟩)
    (missingFrom order (lowerIndex desired) (lowerIndex live))
  have hsp : ∀ {n d : Text}, d ∈ desired → lower n = lower d →
      ¬Listed n (missingFrom order (lowerIndex live) (lowerIndex desired)) := by
    rintro n d hd hlo ⟨r, hr, hrl⟩
    exact (of_mem_missing hl hde hr).2 ⟨d, hd, (hrl.trans hlo).symm⟩
  constructor
  · intro n hn
    rcases ho n ((mem_foldl_removes _).mp hn).1 with hol | hne
    · exact .inl hol
    · exact .inr (of_mem_missing hde hl hne).1
  intro x
  constructor
  · rintro ⟨n, hn, hlo⟩
    obtain ⟨hm, hno⟩ := (mem_foldl_removes _).mp hn
    rcases ho n hm with hol | hne
    · by_contra hx
      refine hno (missing_of_not_listed order hl hde hol fun hli => hx ?_)
      exact hli.congr hlo
    · exact ⟨n, (of_mem_missing hde hl hne).1, hlo⟩
  · rintro ⟨d, hd, hlo⟩
    have ht : Listed d s.names := by
      by_cases hli : Listed d live
      · obtain ⟨n, hn, hsa⟩ := hli
        exact ⟨n, hk n hn, hsa⟩
      · obtain ⟨a, ha, hsa⟩ := missing_of_not_listed order hde hl hd hli
        exact (hal a ha).congr hsa
    obtain ⟨n, hn, hsa⟩ := ht
    exact ⟨n, (mem_foldl_removes _).mpr ⟨hn, hsp hd hsa⟩, hsa.trans hlo⟩

theorem synced_enforced (hd : ∀ n ∈ desired, isUsername n = true) (s : Server) :
    ((syncCommands order live desired).foldl Server.apply s).enforced = !desired.isEmpty := by
  rw [syncCommands_eq hd, foldl_append, foldl_toggle]

section

variable (hl : ∀ n ∈ live, isUsername n = true) (hd : ∀ n ∈ desired, isUsername n = true)
include hl hd

theorem spared_of_listed (hn : Listed n desired)
    (hr : .remove r ∈ syncCommands order live desired) : lower n ≠ lower r := by
  rw [syncCommands_eq hd] at hr
  have hm : r ∈ missingFrom order (lowerIndex live) (lowerIndex desired) := by
    rcases mem_append.mp hr with hr | hr
    · rcases mem_append.mp hr with hr | hr
      · obtain ⟨a, _, ha⟩ := mem_map.mp hr
        cases ha
      · obtain ⟨a, ha, he⟩ := mem_map.mp hr
        cases he
        exact ha
    · have he := mem_singleton.mp hr
      unfold toggle at he
      split at he <;> cases he
  exact fun hlo => (of_mem_missing hl hd hm).2 (hn.congr hlo)

theorem syncCommands_settled (h : ∀ x, Listed x live ↔ Listed x desired) :
    syncCommands order live desired = [toggle desired] := by
  have ha : missingFrom order (lowerIndex desired) (lowerIndex live) = [] := by
    refine eq_nil_iff_forall_not_mem.mpr fun v hv => ?_
    obtain ⟨hm, hn⟩ := of_mem_missing hd hl hv
    exact hn ((h v).mpr (.of_mem hm))
  have hr : missingFrom order (lowerIndex live) (lowerIndex desired) = [] := by
    refine eq_nil_iff_forall_not_mem.mpr fun v hv => ?_
    obtain ⟨hm, hn⟩ := of_mem_missing hl hd hv
    exact hn ((h v).mp (.of_mem hm))
  rw [syncCommands_eq hd, ha, hr]
  rfl

end

end Syncing

/-- A run brings the whitelist to what is wanted and never takes a wanted name off, the next one
finds nothing to do, and the order of the maps does not show. -/
theorem whitelist_reconciled (order order' : IterOrder) {live desired : List Text}
    (hlive : ∀ n ∈ live, isUsername n = true) (hdesired : ∀ n ∈ desired, isUsername n = true)
    {body : Text} (hbody : Shows live body) (enforced : Bool) :
    let cmds := whitelistSyncCommands order (parseWhitelist body) desired
    let after := Server.execAll ⟨live, enforced⟩ cmds
    (∀ x, Listed x after.names ↔ Listed x desired) ∧ (after.enforced = true ↔ desired ≠ []) ∧
      (∀ k, ∀ n ∈ live, Listed n desired → n ∈ (Server.execAll ⟨live, enforced⟩ (cmds.take k)).names) ∧
      (∀ body', Shows after.names body' →
        whitelistSyncCommands order' (parseWhitelist body') desired = [(toggle desired).text]) ∧
      whitelistSyncCommands order' (parseWhitelist body) desired = cmds := by
  intro cmds after
  have hcmds : cmds = (syncCommands order live desired).map Command.text := by
    rw [← parseWhitelist_shows hbody hlive]
    rfl
  have hafter : after = (syncCommands order live desired).foldl Server.apply ⟨live, enforced⟩ := by
    rw [← execAll_text, ← hcmds]
  obtain ⟨hnames, hlisted⟩ := hafter ▸ synced_names order hlive hdesired enforced
  refine ⟨hlisted, ?_, fun k n hn hwanted => ?_, fun body' hbody' => ?_, ?_⟩
  · rw [hafter, synced_enforced hdesired]
    cases desired <;> simp
  · rw [hcmds, ← map_take, execAll_text]
    refine mem_foldl_of_spared hn fun r hr => ?_
    exact spared_of_listed hlive hdesired hwanted (mem_of_mem_take hr)
  · have hvalid : ∀ n ∈ after.names, isUsername n = true := fun n hn =>
      (hnames n hn).elim (hlive n) (hdesired n)
    rw [whitelistSyncCommands, parseWhitelist_shows hbody' hvalid,
      syncCommands_settled hvalid hdesired hlisted]
    rfl
  · rw [hcmds, whitelistSyncCommands, parseWhitelist_shows hbody hlive, syncCommands_eq hdesired,
      syncCommands_eq hdesired, missingFrom_order order' order, missingFrom_order order' order]

theorem Colored.refl (h : '§' ∉ t) : Colored t t := by
  induction t with
  | nil => exact .nil
  | cons c t ih =>
    have hc : c ≠ '§' := fun he => h (he ▸ mem_cons_self ..)
    exact .char c hc (ih fun hm => h (.tail _ hm))

def coloredReply : Text := "§aThere are 2 whitelisted players: Bob, carol.".toList

theorem two_names_reconciled : Shows ["Bob".toList, "carol".toList] coloredReply ∧
      whitelistSyncCommands .asStored (parseWhitelist coloredReply)
        ["alice".toList, "BOB".toList, "bob".toList] =
          ["whitelist add alice".toList, "whitelist remove carol".toList, "whitelist on".toList] ∧
      ∀ x, Listed x (Server.execAll ⟨["Bob".toList, "carol".toList], false⟩
        (whitelistSyncCommands .asStored (parseWhitelist coloredReply)
          ["alice".toList, "BOB".toList, "bob".toList])).names ↔
        Listed x ["alice".toList, "BOB".toList, "bob".toList] := by
  have hshows : Shows ["Bob".toList, "carol".toList] coloredReply :=
    ⟨_, .listed _ "There are 2 whitelisted players".toList true (by decide),
      .code 'a' (by decide) (.refl (by decide))⟩
  exact ⟨hshows, by decide, (whitelist_reconciled .asStored .asStored (by decide) (by decide) hshows
    false).1⟩

end Craftling.Minecraft
