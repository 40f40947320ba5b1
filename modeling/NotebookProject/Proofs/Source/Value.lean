import Mathlib.Data.Bool.AllAny
import NotebookProject.Proofs.Number.Reading
import NotebookProject.Proofs.Source.Skeleton

/-!
# Values in sources

Slots that may stand where the source wants an expression: between a piece of code that opens a
value, such as a bracket, a comma or an equals sign, and one that closes it. Whether they fit there
is decided once for all such pieces, and values are put together without looking at them again.

## Main definitions

* `IsValue`: slots that may stand where an expression is wanted.
* `literalSlots`: the literal of a tree.

## Main results

* `isValue_number`: a text of the characters of numbers is a value.
* `isValue_literalSlots`: so is the literal of a tree.
-/

namespace NotebookProject

namespace Source

open Python

/-! ## Places for values -/

/-- What the lexer can be in the middle of in front of a value. -/
def readyModes : List Mode :=
  [.between, .operator ['='], .operator ['('], .operator ['['], .operator ['\x7b']]

/-- The characters that can stand behind a value. -/
def closers : List Char := [',', ':', ')', ']', '\x7d', ' ', '\n']

/-- The slot may be the first one of a value. -/
def startsValue (a : Slot) : Bool := readyModes.all fun m => a.follows m

/-- A value may end in the mode. -/
def endsValue (m : Mode) : Bool := m.finish.isSome && closers.all m.breaks

/-- A value may follow the piece of code. -/
def opensValue (piece : String) : Bool :=
  (Slot.code piece).mode?.any readyModes.contains

/-- The piece of code may follow a value. -/
def closesValue (piece : String) : Bool :=
  piece.toList.head?.any closers.contains &&
    (Slot.code piece).mode?.any fun m => m.finish.isSome

/-- Slots that may stand between a piece that opens a value and one that closes it. -/
def IsValue (slots : List Slot) : Prop :=
  ∀ before after, opensValue before → closesValue after →
    Slot.wellFormed (.code before :: (slots ++ [.code after]))

variable {before after left right : String} {a : Slot} {m : Mode} {xs ys : List Slot}

/-- Long pieces are looked at character by character. -/
theorem opensValue_of_chars {piece : String} {cs : List Char} (hcs : piece.toList = cs)
    (h : cs.all isClean && (readFrom .between cs).any fun q => readyModes.contains q.2) :
    opensValue piece := by
  obtain ⟨hclean, hready⟩ := Bool.and_eq_true_iff.mp h
  rw [opensValue, Slot.mode?_code hcs, if_pos hclean, Option.any_map]
  exact hready

theorem closesValue_of_chars {piece : String} {cs : List Char} (hcs : piece.toList = cs)
    (h : cs.all isClean && (readFrom .between cs).any fun q => q.2.finish.isSome)
    (hhead : cs.head?.any closers.contains) : closesValue piece := by
  obtain ⟨hclean, hfinish⟩ := Bool.and_eq_true_iff.mp h
  rw [closesValue, Slot.mode?_code hcs, if_pos hclean, Option.any_map, hcs, hhead]
  exact hfinish

theorem follows_of_opensValue (hbefore : opensValue before) (ha : startsValue a) :
    (Slot.code before).mode?.any fun r => r.finish.isSome && a.follows r := by
  have hfinish : ∀ r ∈ readyModes, r.finish.isSome := by decide
  obtain ⟨r, hr, hmem⟩ := (Option.any_eq_true _ _).mp hbefore
  have hmem' : r ∈ readyModes := List.contains_iff_mem.mp hmem
  simp [hr, hfinish r hmem', List.all_eq_true.mp ha r hmem']

theorem wellFormed_of_closesValue (ha : a.mode? = some m) (hm : endsValue m)
    (hafter : closesValue after) : Slot.wellFormed [a, .code after] := by
  obtain ⟨hfinish, hbreaks⟩ := Bool.and_eq_true_iff.mp hm
  obtain ⟨hhead, hlast⟩ := Bool.and_eq_true_iff.mp hafter
  obtain ⟨c, hc, hmem⟩ := (Option.any_eq_true _ _).mp hhead
  have hfollows : (Slot.code after).follows m := (Option.any_eq_true _ _).mpr
    ⟨c, hc, List.all_eq_true.mp hbreaks c (List.contains_iff_mem.mp hmem)⟩
  refine Bool.and_eq_true_iff.mpr ⟨?_, hlast⟩
  simp [ha, hfinish, hfollows]

theorem isValue_single (hstarts : startsValue a) (ha : a.mode? = some m) (hm : endsValue m) :
    IsValue [a] := fun _ _ hbefore hafter =>
  Bool.and_eq_true_iff.mpr ⟨follows_of_opensValue hbefore hstarts,
    wellFormed_of_closesValue ha hm hafter⟩

/-- Two values with a piece between them that closes one and opens the other. -/
theorem IsValue.join (hxs : IsValue xs) (hys : IsValue ys) {piece : String}
    (hcloses : closesValue piece) (hopens : opensValue piece) :
    IsValue (xs ++ .code piece :: ys) := by
  intro before after hbefore hafter
  have hsplit := Slot.wellFormed_split (a := .code piece) (.code before :: xs) (ys ++ [.code after])
  simp only [List.cons_append, List.append_assoc] at hsplit ⊢
  rw [hsplit, hxs before piece hbefore hcloses, hys piece after hopens hafter]
  rfl

/-- Slots in brackets are a value. -/
theorem isValue_enclosed (h : Slot.wellFormed (.code left :: (xs ++ [.code right])))
    (hleft : startsValue (.code left)) (hright : (Slot.code right).mode? = some m)
    (hm : endsValue m) : IsValue (.code left :: (xs ++ [.code right])) := by
  intro before after hbefore hafter
  have hend := wellFormed_of_closesValue hright hm hafter
  have hsplit := Slot.wellFormed_split (a := .code right) (.code left :: xs) [.code after]
  simp only [List.cons_append, List.append_assoc, List.nil_append] at hsplit ⊢
  exact Bool.and_eq_true_iff.mpr ⟨follows_of_opensValue hbefore hleft,
    hsplit ▸ Bool.and_eq_true_iff.mpr ⟨h, hend⟩⟩

theorem isValue_text (s : String) : IsValue [.text s] :=
  isValue_single (m := .doubled [] '\'') rfl rfl rfl

theorem isValue_name (stored : String) : IsValue [.name stored] :=
  isValue_single (m := .word ['f']) rfl rfl rfl

theorem isValue_truth (b : Bool) : IsValue [.code (truth b)] := by
  cases b with
  | true => exact isValue_single (m := .word "True".toList) (by decide) (by decide) (by decide)
  | false => exact isValue_single (m := .word "False".toList) (by decide) (by decide) (by decide)

/-- Values with a comma and a space between each two. -/
def separated : List (List Slot) → List Slot
  | [] => []
  | [l] => l
  | l :: k :: rest => l ++ .code ", " :: separated (k :: rest)

theorem isValue_separated {ls : List (List Slot)} (hne : ls ≠ []) (h : ∀ l ∈ ls, IsValue l) :
    IsValue (separated ls) := by
  induction ls with
  | nil => exact absurd rfl hne
  | cons l rest ih =>
    obtain ⟨hl, hrest⟩ := List.forall_mem_cons.mp h
    cases rest with
    | nil => exact hl
    | cons k rest => exact hl.join (ih (List.cons_ne_nil k rest) hrest) (by decide) (by decide)

theorem render_separated (ls : List (List Slot)) :
    render (separated ls) = commaSeparated (ls.map render) := by
  induction ls with
  | nil => rfl
  | cons l rest ih =>
    cases rest with
    | nil => simp [separated, commaSeparated]
    | cons k rest =>
      simp only [separated, render_append, render_cons, ih]
      simp [commaSeparated, String.append_assoc]

theorem isValue_list {ls : List (List Slot)} (h : ∀ l ∈ ls, IsValue l) :
    IsValue (.code "[" :: (separated ls ++ [.code "]"])) := by
  refine isValue_enclosed (m := .operator [']']) ?_ (by decide) (by decide) (by decide)
  cases ls with
  | nil => rfl
  | cons l ls => exact isValue_separated (List.cons_ne_nil l ls) h "[" "]" (by decide) (by decide)

theorem isValue_dictionary {ls : List (List Slot)} (h : ∀ l ∈ ls, IsValue l) :
    IsValue (.code "\x7b" :: (separated ls ++ [.code "\x7d"])) := by
  refine isValue_enclosed (m := .operator ['\x7d']) ?_ (by decide) (by decide) (by decide)
  cases ls with
  | nil => rfl
  | cons l ls =>
    exact isValue_separated (List.cons_ne_nil l ls) h "\x7b" "\x7d" (by decide) (by decide)

/-- An entry of a dictionary. -/
def entrySlots (key : String) (value : List Slot) : List Slot := .text key :: .code ": " :: value

theorem isValue_entry (key : String) (h : IsValue xs) : IsValue (entrySlots key xs) :=
  (isValue_text key).join h (by decide) (by decide)

/-! ## Numbers -/

/-- The characters of numbers. -/
def numberChars : List Char :=
  ['0', '1', '2', '3', '4', '5', '6', '7', '8', '9', '.', 'e', 'E', '+', '-']

theorem mem_numberChars {c : Char} (h : Decimal.isFractional c) : c ∈ numberChars := by
  simp only [Decimal.isFractional, isNumeral, Bool.or_eq_true, beq_iff_eq] at h
  rcases h with ((((h | rfl) | rfl) | rfl) | rfl) | rfl
  · have hdigits : ∀ n, n < 10 → Char.ofNat (48 + n) ∈ numberChars := by decide
    obtain ⟨hlow, hhigh⟩ : 48 ≤ c.toNat ∧ c.toNat ≤ 57 := Char.isDigit_iff_toNat.mp h
    have hmem := hdigits (c.toNat - 48) (by omega)
    rwa [Nat.add_sub_cancel' hlow, Char.ofNat_toNat] at hmem
  · decide
  · decide
  · decide
  · decide
  · decide

/-- Between two characters of a number: nothing has to be closed. -/
def inNumber : Mode → Bool
  | .between | .word _ | .number _ => true
  | .operator cs => cs != ['!']
  | _ => false

theorem begin_numberChar {c : Char} (h : c ∈ numberChars) :
    ∃ m, Mode.begin c = some ([], m) ∧ inNumber m := by
  have hall : ∀ c ∈ numberChars,
      (Mode.begin c).any fun r => r.1.isEmpty && inNumber r.2 :=
    List.all_iff_forall_prop.mp (by decide)
  obtain ⟨⟨ts, m⟩, hbegin, hr⟩ := (Option.any_eq_true _ _).mp (hall c h)
  obtain ⟨hts, hm⟩ := Bool.and_eq_true_iff.mp hr
  obtain rfl : ts = [] := List.isEmpty_iff.mp hts
  exact ⟨m, hbegin, hm⟩

theorem finish_inNumber {m : Mode} (h : inNumber m) : m.finish.isSome := by
  cases m with
  | between | word | number => rfl
  | operator cs =>
    have hcs : cs ≠ ['!'] := by simpa [inNumber] using h
    simp only [Mode.finish, beq_iff_eq, hcs, ↓reduceIte]
    split_ifs <;> rfl
  | _ => simp [inNumber] at h

theorem extend?_inNumber {m m' : Mode} {c : Char} (hm : inNumber m) (hc : c ∈ numberChars)
    (h : m.extend? c = some m') : inNumber m' := by
  have hquote : ∀ c ∈ numberChars, isQuote c = false :=
    List.all_iff_forall_prop.mp (by decide)
  have hlong : ∀ op ∈ longOperators, op ≠ ['!'] := by decide
  cases m with
  | between => simp [Mode.extend?] at h
  | word cs =>
    simp only [Mode.extend?, hquote c hc, Bool.false_and, Bool.false_eq_true, ↓reduceIte] at h
    split_ifs at h
    exact Option.some.inj h ▸ rfl
  | number cs =>
    simp only [Mode.extend?] at h
    split_ifs at h
    exact Option.some.inj h ▸ rfl
  | operator cs =>
    simp only [Mode.extend?] at h
    split_ifs at h with hpoint hop
    · exact Option.some.inj h ▸ rfl
    · rw [← Option.some.inj h]
      simpa [inNumber] using hlong _ (List.contains_iff_mem.mp hop)
  | _ => simp [inNumber] at hm

theorem step_inNumber {m : Mode} {c : Char} (hm : inNumber m) (hc : c ∈ numberChars) :
    ∃ ts m', m.step c = some (ts, m') ∧ inNumber m' := by
  cases hextend : m.extend? c with
  | some m' =>
    have hstep : m.step c = some ([], m') := by
      cases m with
      | joined | opened | literal => simp [inNumber] at hm
      | _ => simp [Mode.step, hextend]
    exact ⟨[], m', hstep, extend?_inNumber hm hc hextend⟩
  | none =>
    have hbreaks : m.breaks c := by
      cases m with
      | joined | opened | literal => simp [inNumber] at hm
      | _ => simp [Mode.breaks, hextend]
    obtain ⟨ts, hts⟩ := Option.isSome_iff_exists.mp (finish_inNumber hm)
    obtain ⟨m', hbegin, hm'⟩ := begin_numberChar hc
    exact ⟨ts, m', by simp [Mode.step_of_breaks hbreaks, hts, Mode.step_between, hbegin], hm'⟩

theorem readFrom_inNumber {m : Mode} {cs : List Char} (hm : inNumber m)
    (hcs : ∀ c ∈ cs, c ∈ numberChars) : ∃ ts m', readFrom m cs = some (ts, m') ∧ inNumber m' := by
  induction cs generalizing m with
  | nil => exact ⟨[], m, rfl, hm⟩
  | cons c cs ih =>
    obtain ⟨hc, hcs⟩ := List.forall_mem_cons.mp hcs
    obtain ⟨ts, m', hstep, hm'⟩ := step_inNumber hm hc
    obtain ⟨us, m'', hread, hm''⟩ := ih hm' hcs
    exact ⟨ts ++ us, m'', by simp [readFrom, hstep, hread], hm''⟩

theorem endsValue_inNumber {m : Mode} (h : inNumber m) : endsValue m := by
  refine Bool.and_eq_true_iff.mpr ⟨finish_inNumber h, List.all_eq_true.mpr fun c hc => ?_⟩
  cases m with
  | between => rfl
  | word cs =>
    have hall : ∀ c ∈ closers, isWordChar c = false ∧ isQuote c = false :=
      List.all_iff_forall_prop.mp (by decide)
    simp [Mode.breaks, Mode.extend?, hall c hc]
  | number cs =>
    have hall : ∀ c ∈ closers, isWordChar c = false ∧ (c == '.') = false :=
      List.all_iff_forall_prop.mp (by decide)
    simp [Mode.breaks, Mode.extend?, hall c hc]
  | operator cs =>
    have hdigit : ∀ c ∈ closers, c.isDigit = false :=
      List.all_iff_forall_prop.mp (by decide)
    have hlast : ∀ c ∈ closers, ∀ op ∈ longOperators, op.getLast? ≠ some c :=
      List.all_iff_forall_prop.mp (by decide)
    have hlong : cs ++ [c] ∉ longOperators := fun hmem => hlast c hc _ hmem (by simp)
    simp [Mode.breaks, Mode.extend?, hdigit c hc, hlong]
  | _ => simp [inNumber] at h

/-- A text of a number's characters is a value, whether it is a number or not. -/
theorem isValue_number {s : String} (hne : s ≠ "") (h : ∀ c ∈ s.toList, c ∈ numberChars) :
    IsValue [.code s] := by
  have hclean : s.toList.all isClean := by
    have hall : ∀ c ∈ numberChars, isClean c := List.all_iff_forall_prop.mp (by decide)
    exact List.all_eq_true.mpr fun c hc => hall c (h c hc)
  obtain ⟨ts, m, hread, hm⟩ := readFrom_inNumber (m := .between) rfl h
  have hmode : (Slot.code s).mode? = some m := by simp [Slot.mode?, hclean, hread]
  refine isValue_single ?_ hmode (endsValue_inNumber hm)
  have hready : ∀ c ∈ numberChars, ∀ r ∈ readyModes, r.breaks c :=
    List.all_iff_forall_prop.mp (by decide)
  cases hs : s.toList with
  | nil => exact absurd (String.toList_inj.mp (hs.trans rfl)) hne
  | cons c cs =>
    refine List.all_eq_true.mpr fun r hr => ?_
    simp [Slot.follows, hs, hready c (h c (hs ▸ List.mem_cons_self)) r hr]

theorem isValue_jsonNumber (n : Number) : IsValue [.code (String.ofList (Tree.jsonNumber n))] := by
  refine isValue_number (fun hnil => ?_) fun c hc => ?_
  · obtain ⟨body, ⟨d, rest, rfl, -⟩, hbody⟩ := n.render_eq Tree.jsonFloat
    have hnil' : Tree.jsonNumber n = [] := by simpa using congrArg String.toList hnil
    rcases hbody with hbody | hbody <;> simp [Tree.jsonNumber, hbody] at hnil'
  · refine mem_numberChars ?_
    have hc' : c ∈ Tree.jsonNumber n := by simpa using hc
    simp [Decimal.isFractional, n.isNumeral_render Tree.jsonFloat c hc']

/-! ## Trees -/

mutual

/-- The literal of a tree. -/
def literalSlots : Tree → List Slot
  | .null => [.code "None"]
  | .bool b => [.code (truth b)]
  | .number n => [.code (String.ofList (Tree.jsonNumber n))]
  | .string s => [.text s]
  | .list items => .code "[" :: (separated (itemSlots items) ++ [.code "]"])
  | .record entries => .code "\x7b" :: (separated (entriesSlots entries) ++ [.code "\x7d"])

def itemSlots : List Tree → List (List Slot)
  | [] => []
  | t :: rest => literalSlots t :: itemSlots rest

def entriesSlots : List (String × Tree) → List (List Slot)
  | [] => []
  | (k, t) :: rest => entrySlots k (literalSlots t) :: entriesSlots rest

end

@[simp] theorem render_entrySlots (key : String) (value : List Slot) :
    render (entrySlots key value) = quote key ++ ": " ++ render value := by
  simp [entrySlots, String.append_assoc]

mutual

theorem render_literalSlots : (t : Tree) → render (literalSlots t) = literal t
  | .null | .number _ | .string _ => by simp [literalSlots, literal]
  | .bool b => by cases b <;> rfl
  | .list items => by
    simp [literalSlots, literal, listOf, render_separated, render_itemSlots items,
      String.append_assoc]
  | .record entries => by
    simp [literalSlots, literal, dictionaryOf, render_separated, render_entriesSlots entries,
      String.append_assoc]

theorem render_itemSlots : (ts : List Tree) → (itemSlots ts).map render = literals ts
  | [] => rfl
  | t :: rest => by simp [itemSlots, literals, render_literalSlots t, render_itemSlots rest]

theorem render_entriesSlots :
    (es : List (String × Tree)) → (entriesSlots es).map render = literalEntries es
  | [] => rfl
  | (k, t) :: rest => by
    simp [entriesSlots, literalEntries, render_literalSlots t, render_entriesSlots rest]

end

mutual

theorem isValue_literalSlots : (t : Tree) → IsValue (literalSlots t)
  | .null => isValue_single (m := .word "None".toList) (by decide) (by decide) (by decide)
  | .bool b => isValue_truth b
  | .number n => isValue_jsonNumber n
  | .string s => isValue_text s
  | .list items => isValue_list (isValue_itemSlots items)
  | .record entries => isValue_dictionary (isValue_entriesSlots entries)

theorem isValue_itemSlots : (ts : List Tree) → ∀ l ∈ itemSlots ts, IsValue l
  | [] => by simp [itemSlots]
  | t :: rest => List.forall_mem_cons.mpr ⟨isValue_literalSlots t, isValue_itemSlots rest⟩

theorem isValue_entriesSlots : (es : List (String × Tree)) → ∀ l ∈ entriesSlots es, IsValue l
  | [] => by simp [entriesSlots]
  | (k, t) :: rest => List.forall_mem_cons.mpr
    ⟨isValue_entry k (isValue_literalSlots t), isValue_entriesSlots rest⟩

end

end Source

end NotebookProject
