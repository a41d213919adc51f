import Mathlib

namespace Craftling.Registry

abbrev Text := List Char

abbrev StringMap := Text → Option Text

/-- A question that a template asks. Without acceptable answers any text will do, and so will none. -/
structure Variable where
  name : Text
  acceptableAnswers : List Text
  deriving DecidableEq, Repr

structure Manifest where
  imageName : Text
  imageTag : Text
  vars : List Variable
  env : StringMap

inductive AnswerErr where
  | missing (name : Text)
  | notAccepted (answer name : Text)
  deriving DecidableEq, Repr

def isNameChar (c : Char) : Bool := c.isAlphanum || c = '_'

/-- What `placeholderRE` matches at the start of a text: the name between the dollar signs, and what
comes after them. No name has a dollar sign, so that the longest run of its characters is the only
one that may be followed by one. -/
def tokenAt : Text → Option (Text × Text)
  | '$' :: cs =>
    match cs.dropWhile isNameChar with
    | '$' :: after =>
      if cs.takeWhile isNameChar = [] then none else some (cs.takeWhile isNameChar, after)
    | _ => none
  | _ => none

theorem tokenAt_shorter (h : tokenAt t = some (name, after)) : after.length < t.length := by
  unfold tokenAt at h
  split at h
  · rename_i cs
    split at h
    · rename_i rest hr
      split at h
      · cases h
      cases h
      have hl := (List.dropWhile_sublist isNameChar (l := cs)).length_le
      rw [hr, List.length_cons] at hl
      rw [List.length_cons]
      omega
    · cases h
  · cases h

/-- `ReplaceAllStringFunc`: what is put in place of a token is not looked at again. -/
def replaceAll (repl : Text → Text) : Text → Text
  | [] => []
  | c :: cs =>
    match _h : tokenAt (c :: cs) with
    | some (name, after) => repl name ++ replaceAll repl after
    | none => c :: replaceAll repl cs
termination_by t => t.length
decreasing_by
  · exact tokenAt_shorter ‹_›
  · exact Nat.lt_succ_self _

def token (name : Text) : Text := '$' :: name ++ ['$']

def answered (answers : StringMap) (name : Text) : Text := (answers name).getD (token name)

local instance (name : Text) (names : List Text) : Decidable (name ∈ names) :=
  decidable_of_iff _ List.elem_iff

def checkVariable (answers : StringMap) (v : Variable) : Except AnswerErr Unit :=
  if v.acceptableAnswers = [] then .ok ()
  else
    match answers v.name with
    | none => .error (.missing v.name)
    | some ans =>
      if ans ∈ v.acceptableAnswers then .ok () else .error (.notAccepted ans v.name)

def rconPassword : Text := ['R', 'C', 'O', 'N', '_', 'P', 'A', 'S', 'S', 'W', 'O', 'R', 'D']

def Manifest.imageRef (m : Manifest) : Text :=
  if m.imageTag = [] then m.imageName else m.imageName ++ ':' :: m.imageTag

def resolvedEnv (m : Manifest) (answers : StringMap) : StringMap := fun key =>
  if key = rconPassword then some ['1', '2', '3', '4']
  else (m.env key).map (replaceAll (answered answers))

def resolve (m : Manifest) (answers : StringMap) : Except AnswerErr (StringMap × Text) := do
  forM m.vars (checkVariable answers)
  return (resolvedEnv m answers, m.imageRef)

def tokens : Text → List Text
  | [] => []
  | c :: cs =>
    match _h : tokenAt (c :: cs) with
    | some (name, after) => name :: tokens after
    | none => tokens cs
termination_by t => t.length
decreasing_by
  · exact tokenAt_shorter ‹_›
  · exact Nat.lt_succ_self _

theorem replaceAll_token (h : tokenAt (c :: cs) = some (name, after)) (repl : Text → Text) :
    replaceAll repl (c :: cs) = repl name ++ replaceAll repl after ∧
      tokens (c :: cs) = name :: tokens after := by
  constructor
  · rw [replaceAll]
    split
    · rename_i h'
      cases h.symm.trans h'
      rfl
    · rename_i h'
      cases h.symm.trans h'
  · rw [tokens]
    split
    · rename_i h'
      cases h.symm.trans h'
      rfl
    · rename_i h'
      cases h.symm.trans h'

theorem replaceAll_plain (h : tokenAt (c :: cs) = none) (repl : Text → Text) :
    replaceAll repl (c :: cs) = c :: replaceAll repl cs ∧ tokens (c :: cs) = tokens cs := by
  constructor
  · rw [replaceAll]
    split
    · rename_i h'
      cases h.symm.trans h'
    · rfl
  · rw [tokens]
    split
    · rename_i h'
      cases h.symm.trans h'
    · rfl

theorem token_induction {P : Text → Prop} (hn : P [])
    (ht : ∀ c cs name after, tokenAt (c :: cs) = some (name, after) → P after → P (c :: cs))
    (hp : ∀ c cs, tokenAt (c :: cs) = none → P cs → P (c :: cs)) (t : Text) : P t := by
  fun_induction tokens t with
  | case1 => exact hn
  | case2 c cs name after h ih => exact ht c cs name after h ih
  | case3 c cs h ih => exact hp c cs h ih

theorem replaceAll_congr (h : ∀ n ∈ tokens t, f n = g n) : replaceAll f t = replaceAll g t := by
  induction t using token_induction with
  | hn => simp [replaceAll]
  | ht c cs name after hat ih =>
    rw [(replaceAll_token hat f).2] at h
    rw [(replaceAll_token hat f).1, (replaceAll_token hat g).1, h name (.head _),
      ih fun n hn => h n (.tail _ hn)]
  | hp c cs hat ih =>
    rw [(replaceAll_plain hat f).2] at h
    rw [(replaceAll_plain hat f).1, (replaceAll_plain hat g).1, ih h]

theorem replaceAll_shorter (h : ∀ n, (f n).length ≤ (g n).length) (t : Text) :
    (replaceAll f t).length ≤ (replaceAll g t).length ∧
      (∀ n ∈ tokens t, (f n).length < (g n).length →
        (replaceAll f t).length < (replaceAll g t).length) := by
  induction t using token_induction with
  | hn => exact ⟨by simp [replaceAll], by simp [tokens]⟩
  | ht c cs name after hat ih =>
    rw [(replaceAll_token hat f).1, (replaceAll_token hat g).1, (replaceAll_token hat f).2,
      List.length_append, List.length_append]
    have hl := h name
    refine ⟨by omega, fun n hn hlt => ?_⟩
    rcases List.mem_cons.mp hn with rfl | hn
    · omega
    · have hr := ih.2 n hn hlt
      omega
  | hp c cs hat ih =>
    rw [(replaceAll_plain hat f).1, (replaceAll_plain hat g).1, (replaceAll_plain hat f).2,
      List.length_cons, List.length_cons]
    exact ⟨Nat.succ_le_succ ih.1, fun n hn hlt => Nat.succ_lt_succ (ih.2 n hn hlt)⟩

def Manifest.declared (m : Manifest) : List Text := m.vars.map Variable.name

def Agree (m : Manifest) (answers answers' : StringMap) : Prop :=
  ∀ name ∈ m.declared, answers name = answers' name

/-- Every placeholder of the environment is a declared variable. The password is not taken from the
template. -/
def Manifest.Closed (m : Manifest) : Prop :=
  ∀ key val, key ≠ rconPassword → m.env key = some val → ∀ name ∈ tokens val, name ∈ m.declared

def Manifest.Answerable (m : Manifest) : Prop :=
  ∃ answers, forM m.vars (checkVariable answers) = .ok ()

theorem checks_congr {vs : List Variable} (h : ∀ v ∈ vs, answers v.name = answers' v.name) :
    forM vs (checkVariable answers) = forM vs (checkVariable answers') := by
  induction vs with
  | nil => rfl
  | cons v vs ih =>
    rw [List.forM_cons, List.forM_cons, ih fun w hw => h w (.tail _ hw)]
    unfold checkVariable
    rw [h v (.head _)]

theorem Agree.checks (h : Agree m answers answers') :
    forM m.vars (checkVariable answers) = forM m.vars (checkVariable answers') :=
  checks_congr fun _ hv => h _ (List.mem_map_of_mem hv)

theorem resolve_of_checks (h : forM m.vars (checkVariable answers) = .ok ()) :
    resolve m answers = .ok (resolvedEnv m answers, m.imageRef) := by
  rw [resolve, h]
  rfl

theorem resolve_of_failed (h : forM m.vars (checkVariable answers) = .error e) :
    resolve m answers = .error e := by
  rw [resolve, h]
  rfl

theorem Agree.resolve_eq (h : Agree m answers answers') (hc : m.Closed) :
    resolve m answers = resolve m answers' := by
  have hv := h.checks
  cases hr : forM m.vars (checkVariable answers) with
  | error e => rw [resolve_of_failed hr, resolve_of_failed (hv ▸ hr)]
  | ok u =>
    rw [resolve_of_checks hr, resolve_of_checks (hv ▸ hr)]
    have he : resolvedEnv m answers = resolvedEnv m answers' := by
      funext key
      unfold resolvedEnv
      split
      · rfl
      rename_i hk
      cases hval : m.env key with
      | none => rfl
      | some val =>
        refine congrArg some (replaceAll_congr fun n hn => ?_)
        rw [answered, answered, h n (hc key val hk hval n hn)]
    rw [he]

def withEmpty (m : Manifest) (answers : StringMap) (name : Text) : StringMap := fun n =>
  if n ∈ m.declared then answers n else if n = name then some [] else none

theorem withEmpty_changes {key val name : Text} (hv : forM m.vars (checkVariable answers) = .ok ())
    (hk : key ≠ rconPassword) (he : m.env key = some val) (hn : name ∈ tokens val)
    (hd : name ∉ m.declared) :
    resolve m (withEmpty m answers name) ≠
      resolve m fun n => if n ∈ m.declared then answers n else none := by
  have ha : Agree m (withEmpty m answers name) answers := fun n hn => if_pos hn
  have hb : Agree m (fun n => if n ∈ m.declared then answers n else none) answers :=
    fun n hn => if_pos hn
  rw [resolve_of_checks (ha.checks.trans hv), resolve_of_checks (hb.checks.trans hv)]
  intro heq
  have hsame := congrFun (Prod.mk.inj (Except.ok.inj heq)).1 key
  rw [resolvedEnv, resolvedEnv, if_neg hk, if_neg hk, he] at hsame
  have hle : ∀ n, (answered (withEmpty m answers name) n).length ≤
      (answered (fun n => if n ∈ m.declared then answers n else none) n).length := by
    intro n
    by_cases hdn : n ∈ m.declared
    · simp [answered, withEmpty, hdn]
    by_cases hnn : n = name
    · simp [answered, withEmpty, hd, hnn]
    · simp [answered, withEmpty, hdn, hnn]
  have hlt := (replaceAll_shorter hle val).2 name hn (by
    simp [answered, withEmpty, hd, token])
  rw [Option.some.inj hsame] at hlt
  exact Nat.lt_irrefl _ hlt

/-- Only declared variables have an influence on a template exactly if every placeholder is declared,
or if no answers are accepted. -/
theorem answers_matter_iff (m : Manifest) :
    (∀ answers answers', Agree m answers answers' → resolve m answers = resolve m answers') ↔
      m.Closed ∨ ¬m.Answerable := by
  constructor
  · intro h
    by_cases ha : m.Answerable
    · left
      obtain ⟨answers, hv⟩ := ha
      intro key val hk he name hn
      by_contra hd
      refine withEmpty_changes hv hk he hn hd (h _ _ fun n hn => ?_)
      exact (if_pos hn).trans (if_pos hn).symm
    · exact .inr ha
  · rintro (hc | ha) answers answers' hag
    · exact hag.resolve_eq hc
    · have hv := hag.checks
      cases hr : forM m.vars (checkVariable answers) with
      | ok u => exact absurd ⟨answers, hr⟩ ha
      | error e => rw [resolve_of_failed hr, resolve_of_failed (hv ▸ hr)]

def undeclared : Manifest :=
  ⟨['i'], [], [], fun key => if key = ['K'] then some ['$', 'X', '$'] else none⟩

theorem undeclared_answer_reaches :
    Agree undeclared (fun _ => none) (fun n => if n = ['X'] then some ['1'] else none) ∧
      resolve undeclared (fun _ => none) ≠
        resolve undeclared fun n => if n = ['X'] then some ['1'] else none := by
  have hat : tokenAt ['$', 'X', '$'] = some (['X'], []) := by decide
  have hk : ['K'] ≠ rconPassword := by decide
  refine ⟨fun name hn => absurd hn List.not_mem_nil, fun heq => ?_⟩
  have hsame := congrFun (Prod.mk.inj (Except.ok.inj heq)).1 ['K']
  simp only [resolvedEnv, if_neg hk, undeclared, if_true, Option.map_some, Option.some.injEq] at hsame
  rw [(replaceAll_token hat _).1, (replaceAll_token hat _).1] at hsame
  simp [answered, token, replaceAll] at hsame

end Craftling.Registry
