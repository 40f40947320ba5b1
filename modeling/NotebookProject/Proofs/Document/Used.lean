import Mathlib.Data.List.Chain
import NotebookProject.Document.Feature
import NotebookProject.Yaml.Event

/-!
# Features in use

Which of the refused features a sequence of events uses. An anchor and a tag belong to the event of
their node, and an alias is an event of its own. A merge key is a plain scalar in the place of a
key, so the collections that are open are followed through the events.

## Main definitions

* `Feature.used`: the features that events use.
* `Feature.Harmless`: tokens whose events use none.

## Main results

* `Feature.used_eq_nil`: the events of harmless tokens use no refused feature.
-/

namespace NotebookProject.Feature

open Yaml

/-! ## Events -/

/-- What the next node is in an open collection. -/
inductive Role where
  | item
  | key
  | value
  deriving DecidableEq, Repr, Inhabited

/-- The role behind a node. -/
def Role.next : Role → Role
  | .item => .item
  | .key => .value
  | .value => .key

/-- The roles in the open collections, innermost first, behind a node. -/
def turn : List Role → List Role
  | [] => []
  | r :: roles => r.next :: roles

/-- The roles in the open collections behind an event. -/
def rolesAfter (roles : List Role) : Event → List Role
  | .alias _ | .scalar _ _ _ => turn roles
  | .sequenceStart _ => .item :: turn roles
  | .mappingStart _ => .key :: turn roles
  | .sequenceEnd | .mappingEnd => roles.tail
  | .documentStart | .documentEnd | .streamEnd => []

/-- The features that the properties of a node use. -/
def ofProperties (p : Properties) : List Feature :=
  (if p.anchor.isSome then [.anchor] else []) ++ if p.tag.isSome then [.tag] else []

/-- The features that an event uses in its role. -/
def ofEvent (role : Option Role) : Event → List Feature
  | .alias _ => [.alias]
  | .scalar p text style =>
    ofProperties p ++ if role = some .key ∧ text = "<<" ∧ style = .plain then [.mergeKey] else []
  | .sequenceStart p | .mappingStart p => ofProperties p
  | _ => []

/-- The features that events use where these collections are open. -/
def usedFrom (roles : List Role) : List Event → List Feature
  | [] => []
  | e :: events => ofEvent roles.head? e ++ usedFrom (rolesAfter roles e) events

/-- The features that events use. -/
def used (events : List Event) : List Feature :=
  usedFrom [] events

/-! ## Tokens -/

/-- The tokens of no refused feature, merge keys apart. -/
def isTame : Token → Bool
  | .alias _ | .anchor _ | .tag _ => false
  | _ => true

/-- The tokens behind which a node can be a key. -/
def opensKey : Token → Bool
  | .key | .flowMappingStart | .flowEntry => true
  | _ => false

/-- The plain scalar that is refused as a key. -/
def mergeToken : Token := .scalar "<<" .plain

/-- The tokens are of no refused feature. -/
structure Harmless (ts : List Token) : Prop where
  all : ∀ t ∈ ts, isTame t
  chain : ts.IsChain fun t u => opensKey t → u ≠ mergeToken

namespace Harmless

variable {t u : Token} {ts us : List Token}

theorem of_isPrefix (h : Harmless us) (hts : ts <+: us) : Harmless ts where
  all t ht := h.all t (hts.mem ht)
  chain := h.chain.prefix hts

theorem of_suffix (h : Harmless us) (hts : ts <:+ us) : Harmless ts where
  all t ht := h.all t (hts.mem ht)
  chain := h.chain.suffix hts

theorem tail (h : Harmless (t :: ts)) : Harmless ts := h.of_suffix (List.suffix_cons ..)

theorem ne_mergeToken (h : Harmless (t :: u :: ts)) (ht : opensKey t) : u ≠ mergeToken :=
  (List.isChain_cons_cons.mp h.chain).1 ht

end Harmless

/-- Harmless tokens that make no key of the next one. -/
structure Tame (ts : List Token) : Prop extends Harmless ts where
  last : ∀ t ∈ ts.getLast?, opensKey t = false

theorem tame_nil : Tame [] := ⟨⟨by simp, by simp⟩, by simp⟩

theorem Tame.append {ts us : List Token} (ht : Tame ts) (hu : Tame us) : Tame (ts ++ us) where
  all := List.forall_mem_append.mpr ⟨ht.all, hu.all⟩
  chain := List.isChain_append.mpr ⟨ht.chain, hu.chain, fun t hlast u _ hopens =>
    absurd hopens (by simp [ht.last t hlast])⟩
  last := by
    cases us with
    | nil => simpa using ht.last
    | cons u us =>
      rw [List.getLast?_append_of_ne_nil _ (by simp)]
      exact hu.last

theorem tame_singleton {t : Token} (ht : isTame t) (hopens : opensKey t = false) : Tame [t] :=
  ⟨⟨by simpa using ht, by simp⟩, by simpa using hopens⟩

/-! ## The grammar -/

variable {g g' : Grammar} {h : Happening} {block loose : Bool}

/-- The roles that an expectation tells of: of the collection that it stands in, and of the flow
sequence around a mapping of one entry. -/
def rolesOf : Expected → List Role
  | .blockEntry | .looseEntry | .flowEntry _ => [.item]
  | .blockKey | .flowKey _ => [.key]
  | .blockValue | .flowValue | .missingValue => [.value]
  | .pairKey | .pairEnd => [.key, .item]
  | .pairValue => [.value, .item]
  | .document _ | .bareContent | .content | .documentEnd | .finished => []

/-- The roles in the open collections of a state. -/
def rolesIn (g : Grammar) : List Role :=
  match g.expected with
  | .document _ | .finished => []
  | e => rolesOf e ++ g.after.flatMap rolesOf

/-- The expectations that stand behind a node. -/
def isResumed : Expected → Bool
  | .document _ | .bareContent | .content | .pairKey | .flowKey true | .finished => false
  | _ => true

/-- The states that are met over harmless tokens. -/
structure Tidy (g : Grammar) : Prop where
  harmless : Harmless (g.tokens.map (·.token))
  after : ∀ e ∈ g.after, isResumed e
  content : g.expected = .bareContent ∨ g.expected = .content → g.after = [.documentEnd]
  clear : g.expected = .pairKey ∨ g.expected = .flowKey true →
    ∀ m ∈ g.tokens.head?, m.token ≠ mergeToken

theorem Tidy.pop (hharmless : Harmless (g.tokens.map (·.token)))
    (hafter : ∀ e ∈ g.after, isResumed e) :
    Tidy g.pop ∧ rolesIn g.pop = g.after.flatMap rolesOf := by
  obtain ⟨tokens, expected, after, shorthands⟩ := g
  cases after with
  | nil => exact ⟨⟨hharmless, hafter, by simp [Grammar.pop], by simp [Grammar.pop]⟩, rfl⟩
  | cons e after =>
    obtain ⟨he, hafter⟩ := List.forall_mem_cons.mp hafter
    refine ⟨⟨hharmless, hafter, ?_, ?_⟩, ?_⟩
    · rintro (rfl | rfl) <;> cases he
    · rintro (rfl | rfl) <;> cases he
    · cases e <;> first | rfl | cases he

/-- An event that uses no refused feature in a place with these roles, and the state behind it. -/
structure Gives (roles : List Role) (h : Happening) (g' : Grammar) : Prop where
  unused : ofEvent roles.head? h.event = []
  tidy : Tidy g'
  roles : rolesIn g' = rolesAfter roles h.event

variable {roles : List Role}

/-- The end of a collection. -/
theorem gives_end {mark : Mark} {e : Event} (he : e = .sequenceEnd ∨ e = .mappingEnd)
    (hharmless : Harmless (g.tokens.map (·.token))) (hafter : ∀ e ∈ g.after, isResumed e)
    (hroles : roles.tail = g.after.flatMap rolesOf) : Gives roles ⟨mark, e⟩ g.pop := by
  obtain ⟨htidy, hpop⟩ := Tidy.pop hharmless hafter
  obtain rfl | rfl := he
  · exact ⟨rfl, htidy, hpop.trans hroles.symm⟩
  · exact ⟨rfl, htidy, hpop.trans hroles.symm⟩

/-- A missing node is no merge key. -/
theorem ofEvent_missing (role : Option Role) (mark : Mark) :
    ofEvent role (Grammar.missing mark).event = [] := by
  simp [Grammar.missing, ofEvent, ofProperties, Properties.none]

theorem properties_of_harmless (hharmless : Harmless (g.tokens.map (·.token))) :
    g.properties = some (.none, g) := by
  obtain ⟨tokens, expected, after, shorthands⟩ := g
  unfold Grammar.properties
  cases tokens with
  | nil => rfl
  | cons m rest =>
    obtain ⟨mark, token⟩ := m
    have htame : isTame token := hharmless.all token (by simp)
    cases token <;> first | rfl | cases htame

theorem Harmless.skip (hharmless : Harmless (g.tokens.map (·.token))) :
    Harmless (g.skip.tokens.map (·.token)) := by
  refine hharmless.of_suffix ?_
  rw [Grammar.skip, List.map_tail]
  exact List.tail_suffix _

/-- No merge key follows where one could. -/
theorem Harmless.head?_skip {m : Marked} (hharmless : Harmless (g.tokens.map (·.token)))
    (hm : m ∈ g.tokens.head?) (hopens : opensKey m.token) :
    ∀ m ∈ g.skip.tokens.head?, m.token ≠ mergeToken := by
  intro m' hm'
  obtain ⟨rest, hrest⟩ := List.head?_eq_some_iff.mp hm
  rw [Grammar.skip, hrest] at hm'
  obtain ⟨rest', rfl⟩ := List.head?_eq_some_iff.mp hm'
  rw [hrest] at hharmless
  exact hharmless.ne_mergeToken hopens

/-- The first event of a node. -/
theorem gives_node (hnode : g.node block loose = some (h, g'))
    (hharmless : Harmless (g.tokens.map (·.token))) (hafter : ∀ e ∈ g.after, isResumed e)
    (hroles : turn roles = g.after.flatMap rolesOf)
    (hkey : roles.head? = some .key → ∀ m ∈ g.tokens.head?, m.token ≠ mergeToken) :
    Gives roles h g' := by
  have hproperties := properties_of_harmless hharmless
  have hrest := hharmless.skip
  obtain ⟨tokens, expected, after, shorthands⟩ := g
  cases tokens with
  | nil => cases hnode
  | cons m rest =>
    obtain ⟨mark, token⟩ := m
    have htame : isTame token := hharmless.all token (by simp)
    unfold Grammar.node at hnode
    simp only [hproperties, beq_self_eq_true, ↓reduceIte] at hnode
    cases token with
    | scalar text style =>
      simp only [Properties.none, Option.some.injEq, Prod.mk.injEq] at hnode
      obtain ⟨rfl, rfl⟩ := hnode
      obtain ⟨htidy, hpop⟩ := Tidy.pop hrest hafter
      refine ⟨?_, htidy, hpop.trans hroles.symm⟩
      have hmerge : ¬(roles.head? = some .key ∧ text = "<<" ∧ style = .plain) := by
        rintro ⟨hrole, rfl, rfl⟩
        exact hkey hrole _ rfl rfl
      simp [ofEvent, ofProperties, hmerge]
    | flowSequenceStart =>
      obtain ⟨rfl, rfl⟩ := Prod.mk.inj (Option.some.inj hnode)
      exact ⟨rfl, ⟨hrest, hafter, by simp, by simp⟩, congrArg (Role.item :: ·) hroles.symm⟩
    | flowMappingStart =>
      obtain ⟨rfl, rfl⟩ := Prod.mk.inj (Option.some.inj hnode)
      exact ⟨rfl, ⟨hrest, hafter, by simp, fun _ => hharmless.head?_skip rfl rfl⟩,
        congrArg (Role.key :: ·) hroles.symm⟩
    | blockSequenceStart =>
      obtain ⟨-, hnode⟩ := Option.ite_none_right_eq_some.mp hnode
      obtain ⟨rfl, rfl⟩ := Prod.mk.inj (Option.some.inj hnode)
      exact ⟨rfl, ⟨hrest, hafter, by simp, by simp⟩, congrArg (Role.item :: ·) hroles.symm⟩
    | blockMappingStart =>
      obtain ⟨-, hnode⟩ := Option.ite_none_right_eq_some.mp hnode
      obtain ⟨rfl, rfl⟩ := Prod.mk.inj (Option.some.inj hnode)
      exact ⟨rfl, ⟨hrest, hafter, by simp, by simp⟩, congrArg (Role.key :: ·) hroles.symm⟩
    | blockEntry =>
      obtain ⟨-, hnode⟩ := Option.ite_none_right_eq_some.mp hnode
      obtain ⟨rfl, rfl⟩ := Prod.mk.inj (Option.some.inj hnode)
      exact ⟨rfl, ⟨hharmless, hafter, by simp, by simp⟩, congrArg (Role.item :: ·) hroles.symm⟩
    | _ => first | exact absurd htame Bool.false_ne_true | simp at hnode

theorem rolesIn_of_isResumed (he : isResumed g.expected) :
    rolesIn g = rolesOf g.expected ++ g.after.flatMap rolesOf := by
  obtain ⟨tokens, expected, after, shorthands⟩ := g
  cases expected <;> first | rfl | cases he

theorem Tidy.of_isResumed (he : isResumed g.expected)
    (hharmless : Harmless (g.tokens.map (·.token))) (hafter : ∀ e ∈ g.after, isResumed e) :
    Tidy g where
  harmless := hharmless
  after := hafter
  content := by rintro (h | h) <;> rw [h] at he <;> cases he
  clear := by rintro (h | h) <;> rw [h] at he <;> cases he

theorem gives_missing {mark : Mark} {next : Expected}
    (hharmless : Harmless (g.tokens.map (·.token)))
    (hafter : ∀ e ∈ g.after, isResumed e) (hnext : isResumed next)
    (hroles : turn roles = rolesOf next ++ g.after.flatMap rolesOf) :
    Gives roles (Grammar.missing mark) { g with expected := next } :=
  ⟨ofEvent_missing _ _, .of_isResumed hnext hharmless hafter,
    (rolesIn_of_isResumed hnext).trans hroles.symm⟩

/-- The first event of a node that may be missing. -/
theorem gives_optionalNode {ends : Token → Bool} {next : Expected}
    (hnode : g.optionalNode block loose ends next = some (h, g'))
    (hharmless : Harmless (g.tokens.map (·.token))) (hafter : ∀ e ∈ g.after, isResumed e)
    (hnext : isResumed next) (hroles : turn roles = rolesOf next ++ g.after.flatMap rolesOf)
    (hkey : roles.head? = some .key → ∀ m ∈ g.tokens.head?, m.token ≠ mergeToken) :
    Gives roles h g' := by
  obtain ⟨tokens, expected, after, shorthands⟩ := g
  unfold Grammar.optionalNode at hnode
  cases tokens with
  | nil => cases hnode
  | cons m rest =>
    dsimp only at hnode
    split_ifs at hnode
    · obtain ⟨rfl, rfl⟩ := Prod.mk.inj (Option.some.inj hnode)
      exact gives_missing hharmless hafter hnext hroles
    · exact gives_node hnode hharmless (List.forall_mem_cons.mpr ⟨hnext, hafter⟩) hroles hkey

theorem directives_suffix {version : Bool} {shorthands shorthands' : List TagShorthand}
    {tokens tokens' : List Marked}
    (h : Grammar.directives version shorthands tokens = some (shorthands', tokens')) :
    tokens' <:+ tokens := by
  induction tokens generalizing version shorthands with
  | nil =>
    obtain ⟨-, rfl⟩ := Prod.mk.inj (Option.some.inj h)
    exact List.suffix_rfl
  | cons m rest ih =>
    obtain ⟨mark, token⟩ := m
    unfold Grammar.directives at h
    cases token
    case versionDirective =>
      obtain ⟨-, h⟩ := Option.ite_none_left_eq_some.mp h
      exact (ih h).trans (List.suffix_cons _ _)
    case tagDirective =>
      obtain ⟨-, h⟩ := Option.ite_none_left_eq_some.mp h
      exact (ih h).trans (List.suffix_cons _ _)
    all_goals
      obtain ⟨-, rfl⟩ := Prod.mk.inj (Option.some.inj h)
      exact List.suffix_rfl

/-- A document starts, or the stream ends. -/
theorem documentStart_cases {bare : Bool} (hstart : g.documentStart bare = some (h, g')) :
    g'.tokens <:+ g.tokens ∧
      (h.event = .streamEnd ∧ g'.expected = .finished ∧ g'.after = g.after ∨
        h.event = .documentStart ∧ (g'.expected = .bareContent ∨ g'.expected = .content) ∧
          g'.after = [.documentEnd]) := by
  obtain ⟨tokens, expected, after, shorthands⟩ := g
  unfold Grammar.documentStart at hstart
  -- Behind a document its marks are dropped.
  obtain ⟨later, hlater, hg⟩ : ∃ later, later <:+ tokens ∧
      (if bare then (⟨tokens, expected, after, shorthands⟩ : Grammar)
        else ⟨tokens.dropWhile fun m => m.token == .documentEnd, expected, after, shorthands⟩) =
        ⟨later, expected, after, shorthands⟩ := by
    cases bare
    · exact ⟨_, List.dropWhile_suffix _, rfl⟩
    · exact ⟨_, List.suffix_rfl, rfl⟩
  simp only [hg] at hstart
  cases later with
  | nil => cases hstart
  | cons m rest =>
    obtain ⟨mark, token⟩ := m
    by_cases hend : token = .streamEnd
    · subst hend
      obtain ⟨rfl, rfl⟩ := Prod.mk.inj (Option.some.inj hstart)
      exact ⟨(List.suffix_cons _ _).trans hlater, .inl ⟨rfl, rfl, rfl⟩⟩
    · cases hdirectives : Grammar.directives false [] (⟨mark, token⟩ :: rest) with
      | none => simp [hdirectives] at hstart
      | some found =>
        obtain ⟨shorthands', later'⟩ := found
        have hlater' := (directives_suffix hdirectives).trans hlater
        simp only [hdirectives] at hstart
        repeat' split at hstart
        all_goals try cases hstart
        all_goals first
          | exact ⟨hlater', .inr ⟨rfl, .inl rfl, rfl⟩⟩
          | exact ⟨(List.suffix_cons _ _).trans hlater', .inr ⟨rfl, .inr rfl, rfl⟩⟩

theorem gives_document {bare : Bool} (hstart : g.documentStart bare = some (h, g'))
    (hharmless : Harmless (g.tokens.map (·.token))) (hafter : ∀ e ∈ g.after, isResumed e) :
    Gives [] h g' := by
  obtain ⟨hsuffix, ⟨hevent, hexpected, hafter'⟩ | ⟨hevent, hexpected, hafter'⟩⟩ :=
    documentStart_cases hstart
  · refine ⟨by rw [hevent]; rfl, ⟨hharmless.of_suffix (hsuffix.map _), ?_, ?_, ?_⟩, ?_⟩
    · rwa [hafter']
    · simp [hexpected]
    · simp [hexpected]
    · rw [rolesIn, hexpected, hevent]
      rfl
  · refine ⟨by rw [hevent]; rfl, ⟨hharmless.of_suffix (hsuffix.map _), ?_, ?_, ?_⟩, ?_⟩
    · simp [hafter', isResumed]
    · exact fun _ => hafter'
    · rintro (h | h) <;> simp [h] at hexpected
    · rw [rolesIn, hevent, hafter']
      obtain h | h := hexpected <;> rw [h] <;> rfl

/-- The first event of a value, which is missing where no colon is. -/
theorem gives_value {ends : Token → Bool} {next : Expected}
    (hvalue : (match g.tokens with
      | [] => none
      | ⟨_, .value⟩ :: _ => g.skip.optionalNode block loose ends next
      | ⟨mark, _⟩ :: _ => some (Grammar.missing mark, { g with expected := next })) = some (h, g'))
    (hharmless : Harmless (g.tokens.map (·.token))) (hafter : ∀ e ∈ g.after, isResumed e)
    (hnext : isResumed next) (hroles : turn roles = rolesOf next ++ g.after.flatMap rolesOf)
    (hrole : roles.head? = some .value) : Gives roles h g' := by
  split at hvalue
  · cases hvalue
  · exact gives_optionalNode hvalue hharmless.skip hafter hnext hroles (by simp [hrole])
  · obtain ⟨rfl, rfl⟩ := Prod.mk.inj (Option.some.inj hvalue)
    exact gives_missing hharmless hafter hnext hroles

section Collections

variable {tokens : List Marked} {after : List Expected} {shorthands : List TagShorthand}
  {first : Bool}

/-- The next item of a block sequence, or its end. -/
theorem gives_blockEntry
    (hstep : (⟨tokens, .blockEntry, after, shorthands⟩ : Grammar).step = some (h, g'))
    (hharmless : Harmless (tokens.map (·.token))) (hafter : ∀ e ∈ after, isResumed e) :
    Gives (.item :: after.flatMap rolesOf) h g' := by
  cases tokens with
  | nil => cases hstep
  | cons m rest =>
    obtain ⟨mark, token⟩ := m
    cases token with
    | blockEntry => exact gives_optionalNode hstep hharmless.skip hafter rfl rfl (by simp)
    | blockEnd =>
      obtain ⟨rfl, rfl⟩ := Prod.mk.inj (Option.some.inj hstep)
      exact gives_end (.inl rfl) hharmless.skip hafter rfl
    | _ => cases hstep

/-- The next item of a sequence as deep as the key of its mapping, or its end. -/
theorem gives_looseEntry
    (hstep : (⟨tokens, .looseEntry, after, shorthands⟩ : Grammar).step = some (h, g'))
    (hharmless : Harmless (tokens.map (·.token))) (hafter : ∀ e ∈ after, isResumed e) :
    Gives (.item :: after.flatMap rolesOf) h g' := by
  cases tokens with
  | nil => cases hstep
  | cons m rest =>
    obtain ⟨mark, token⟩ := m
    cases token with
    | blockEntry => exact gives_optionalNode hstep hharmless.skip hafter rfl rfl (by simp)
    | _ =>
      obtain ⟨rfl, rfl⟩ := Prod.mk.inj (Option.some.inj hstep)
      exact gives_end (.inl rfl) hharmless hafter rfl

/-- The next key of a block mapping, or its end. -/
theorem gives_blockKey
    (hstep : (⟨tokens, .blockKey, after, shorthands⟩ : Grammar).step = some (h, g'))
    (hharmless : Harmless (tokens.map (·.token))) (hafter : ∀ e ∈ after, isResumed e) :
    Gives (.key :: after.flatMap rolesOf) h g' := by
  cases tokens with
  | nil => cases hstep
  | cons m rest =>
    obtain ⟨mark, token⟩ := m
    cases token with
    | key =>
      exact gives_optionalNode hstep hharmless.skip hafter rfl rfl
        fun _ => hharmless.head?_skip rfl rfl
    | blockEnd =>
      obtain ⟨rfl, rfl⟩ := Prod.mk.inj (Option.some.inj hstep)
      exact gives_end (.inr rfl) hharmless.skip hafter rfl
    | _ => cases hstep

/-- The next entry of a flow sequence, or its end. -/
theorem gives_flowEntry
    (hstep : (⟨tokens, .flowEntry first, after, shorthands⟩ : Grammar).step = some (h, g'))
    (hharmless : Harmless (tokens.map (·.token))) (hafter : ∀ e ∈ after, isResumed e) :
    Gives (.item :: after.flatMap rolesOf) h g' := by
  simp only [Grammar.step] at hstep
  split at hstep
  · cases hstep
  next g hcomma =>
  -- The comma between two entries is dropped.
  obtain ⟨hafter', hharmless'⟩ : g.after = after ∧ Harmless (g.tokens.map (·.token)) := by
    split at hcomma <;> try split_ifs at hcomma
    all_goals cases hcomma
    all_goals first | exact ⟨rfl, hharmless⟩ | exact ⟨rfl, hharmless.tail⟩
  subst hafter'
  split at hstep
  · cases hstep
  · obtain ⟨rfl, rfl⟩ := Prod.mk.inj (Option.some.inj hstep)
    exact gives_end (.inl rfl) hharmless'.skip hafter rfl
  · next hkey =>
    obtain ⟨rfl, rfl⟩ := Prod.mk.inj (Option.some.inj hstep)
    exact ⟨rfl, ⟨hharmless'.skip, hafter, by simp,
      fun _ => hharmless'.head?_skip (List.head?_eq_some_iff.mpr ⟨_, hkey⟩) rfl⟩, rfl⟩
  · exact gives_node hstep hharmless' (List.forall_mem_cons.mpr ⟨rfl, hafter⟩) rfl (by simp)

/-- The next key of a flow mapping, or its end. -/
theorem gives_flowKey
    (hstep : (⟨tokens, .flowKey first, after, shorthands⟩ : Grammar).step = some (h, g'))
    (hharmless : Harmless (tokens.map (·.token))) (hafter : ∀ e ∈ after, isResumed e)
    (hclear : first → ∀ m ∈ tokens.head?, m.token ≠ mergeToken) :
    Gives (.key :: after.flatMap rolesOf) h g' := by
  simp only [Grammar.step] at hstep
  split at hstep
  · cases hstep
  next g hcomma =>
  -- A key without an indicator stands behind the comma, or behind the bracket.
  obtain ⟨hafter', hharmless', hclear'⟩ : g.after = after ∧
      Harmless (g.tokens.map (·.token)) ∧ ∀ m ∈ g.tokens.head?, m.token ≠ mergeToken := by
    split at hcomma
    · cases hcomma
      exact ⟨rfl, hharmless, by simp [mergeToken]⟩
    · split_ifs at hcomma
      · cases hcomma
        exact ⟨rfl, hharmless, by simp [mergeToken]⟩
      · cases hcomma
        exact ⟨rfl, hharmless.skip, hharmless.head?_skip rfl rfl⟩
    · split_ifs at hcomma with hfirst
      cases hcomma
      exact ⟨rfl, hharmless, hclear hfirst⟩
  subst hafter'
  split at hstep
  · cases hstep
  · obtain ⟨rfl, rfl⟩ := Prod.mk.inj (Option.some.inj hstep)
    exact gives_end (.inr rfl) hharmless'.skip hafter rfl
  · next hkey =>
    exact gives_optionalNode hstep hharmless'.skip hafter rfl rfl
      fun _ => hharmless'.head?_skip (List.head?_eq_some_iff.mpr ⟨_, hkey⟩) rfl
  · exact gives_node hstep hharmless' (List.forall_mem_cons.mpr ⟨rfl, hafter⟩) rfl
      fun _ => hclear'

end Collections

/-- A step over harmless tokens uses no refused feature. -/
theorem gives_step (htidy : Tidy g) (hstep : g.step = some (h, g')) : Gives (rolesIn g) h g' := by
  obtain ⟨hharmless, hafter, hcontent, hclear⟩ := htidy
  obtain ⟨tokens, expected, after, shorthands⟩ := g
  have hskip := hharmless.skip
  cases expected with
  | finished => cases hstep
  | document bare => exact gives_document hstep hharmless hafter
  | bareContent =>
    obtain rfl : after = [.documentEnd] := hcontent (.inl rfl)
    exact gives_node hstep hharmless hafter rfl (by simp [rolesIn, rolesOf])
  | content =>
    obtain rfl : after = [.documentEnd] := hcontent (.inr rfl)
    cases tokens with
    | nil => cases hstep
    | cons m rest =>
      obtain ⟨-, ⟨rfl, rfl⟩⟩ | ⟨-, hnode⟩ := ite_eq_iff.mp hstep
      · obtain ⟨htidy, hroles⟩ := Tidy.pop hharmless hafter
        exact ⟨ofEvent_missing _ _, htidy, hroles⟩
      · exact gives_node hnode hharmless hafter rfl (by simp [rolesIn, rolesOf])
  | documentEnd =>
    cases tokens with
    | nil => cases hstep
    | cons m rest =>
      obtain ⟨rfl, rfl⟩ := Prod.mk.inj (Option.some.inj hstep)
      refine ⟨rfl, ⟨?_, ?_, by simp, by simp⟩, rfl⟩ <;> dsimp only <;> split_ifs <;> assumption
  | blockEntry => exact gives_blockEntry hstep hharmless hafter
  | looseEntry => exact gives_looseEntry hstep hharmless hafter
  | blockKey => exact gives_blockKey hstep hharmless hafter
  | blockValue => exact gives_value hstep hharmless hafter rfl rfl rfl
  | flowEntry first => exact gives_flowEntry hstep hharmless hafter
  | pairKey =>
    cases tokens with
    | nil => cases hstep
    | cons m rest =>
      obtain ⟨-, ⟨rfl, rfl⟩⟩ | ⟨-, hnode⟩ := ite_eq_iff.mp hstep
      · exact gives_missing hskip hafter rfl rfl
      · exact gives_node hnode hharmless (List.forall_mem_cons.mpr ⟨rfl, hafter⟩) rfl
          fun _ => hclear (.inl rfl)
  | pairValue => exact gives_value hstep hharmless hafter rfl rfl rfl
  | pairEnd =>
    cases tokens with
    | nil => cases hstep
    | cons m rest =>
      obtain ⟨rfl, rfl⟩ := Prod.mk.inj (Option.some.inj hstep)
      exact ⟨rfl, .of_isResumed rfl hharmless hafter, rfl⟩
  | flowKey first =>
    exact gives_flowKey hstep hharmless hafter fun hfirst => hclear (.inr (by rw [hfirst]))
  | flowValue => exact gives_value hstep hharmless hafter rfl rfl rfl
  | missingValue =>
    cases tokens with
    | nil => cases hstep
    | cons m rest =>
      obtain ⟨rfl, rfl⟩ := Prod.mk.inj (Option.some.inj hstep)
      exact gives_missing hharmless hafter rfl rfl

/-- No run over harmless tokens uses a refused feature. -/
theorem usedFrom_run (fuel : Nat) (htidy : Tidy g) :
    usedFrom (rolesIn g) ((g.run fuel).events.map (·.event)) = [] := by
  induction fuel generalizing g with
  | zero => rfl
  | succ fuel ih =>
    unfold Grammar.run
    cases hstep : g.step with
    | none => rfl
    | some found =>
      obtain ⟨h, g'⟩ := found
      obtain ⟨hunused, htidy', hroles⟩ := gives_step htidy hstep
      dsimp only
      split_ifs
      · simp [usedFrom, hunused]
      · rw [List.map_cons, usedFrom, hunused, ← hroles, ih htidy', List.nil_append]

/-- The events of harmless tokens use no refused feature. -/
theorem used_eq_nil {stream : TokenStream} (h : Harmless (stream.tokens.map (·.token))) :
    used ((EventStream.ofTokens stream).events.map (·.event)) = [] :=
  usedFrom_run (g := ⟨stream.tokens, .document true, [], []⟩) _
    ⟨h, by simp, by simp, by simp⟩

end NotebookProject.Feature
