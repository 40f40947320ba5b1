import NotebookProject.Proofs.Document.Content

/-!
# The feature scan by positions

`Feature.find?` takes every line apart from its front. The same scan can be run on positions: it
moves a position through the line by one, two or three characters and reads the line there, at the
position before it and from it on. A reading that is out of range has no result, and then neither
has the scan. It comes out that no reading is, in any text: the scan by positions always has a
result, the one of `Feature.find?`.

## Main definitions

* `walkAt?`: the scan of a line from a position on.
* `findAt?`: the scan of a text by positions.

## Main results

* `walkAt?_append`: the scan from a position on is that of the characters from there on.
* `findAt?_eq`: no reading is out of range.
-/

namespace NotebookProject.Feature

open Text

/-! ## Readings -/

/-- The characters from a position on. The position may be the end. -/
def from? (cs : List Char) (i : Nat) : Option (List Char) :=
  if i ≤ cs.length then some (cs.drop i) else none

/-- The characters before a position. The position may be the end. -/
def upTo? (cs : List Char) (i : Nat) : Option (List Char) :=
  if i ≤ cs.length then some (cs.take i) else none

def isDocumentMarkerAt? (cs : List Char) (indent : Nat) : Option Bool :=
  if indent != 0 || cs.length < 3 then some false
  else match upTo? cs 3 with
    | none => none
    | some marker =>
      some ((marker == ['-', '-', '-'] || marker == ['.', '.', '.']) && isSeparator cs[3]?)

def isMergeKeyAt? (cs : List Char) : Option Bool :=
  if cs.length < 3 then some false
  else match cs[0]?, cs[1]? with
    | some a, some b =>
      if a != '<' || b != '<' then some false
      else match from? cs 2 with
        | none => none
        | some rest =>
          let spaces := (rest.takeWhile (· == ' ')).length
          some (rest[spaces]? == some ':' && isSeparator rest[spaces + 1]?)
    | _, _ => none

/-- Whether a character begins a comment: a `#` that is the first character or follows a blank. -/
def beginsCommentAt? (cs : List Char) (i : Nat) (c : Char) : Option Bool :=
  if c != '#' then some false
  else if i == 0 then some true
  else cs[i - 1]?.map isBlank

/-- One character, not a blank, at a place where a node can start. No more than the next character
is looked at, except for a merge key. -/
def atNodeAt? (cs : List Char) (cur : Cursor) (indent i : Nat) (c : Char) :
    Option (LineEnd ⊕ Cursor) :=
  if c == '<' then
    match (from? cs i).bind isMergeKeyAt? with
    | none => none
    | some true => some (.inl (.found .mergeKey i))
    | some false => some (atNode cur indent i c cs[i + 1]?.toList)
  else some (atNode cur indent i c cs[i + 1]?.toList)

/-! ## Scans -/

/-- Scans a line from the position `i` on. -/
def walkAt? (cs : List Char) (indent : Nat) (cur : Cursor) (i : Nat) : Option LineEnd :=
  if i < cs.length then
    match cs[i]? with
    | none => none
    | some c =>
      match cur.quote with
      | some q =>
        if (q == '"' && c == '\\') || (q == '\'' && c == '\'' && cs[i + 1]? == some '\'') then
          walkAt? cs indent cur (i + 2)
        else walkAt? cs indent { cur with quote := if c == q then none else some q } (i + 1)
      | none =>
        if c == ' ' || c == '\t' then walkAt? cs indent cur (i + 1)
        else match beginsCommentAt? cs i c with
          | none => none
          | some true => some (.rest { cur with plain := false })
          | some false =>
            if cur.node then
              match atNodeAt? cs cur indent i c with
              | none => none
              | some (.inl ended) => some ended
              | some (.inr cur) => walkAt? cs indent cur (i + 1)
            else walkAt? cs indent (pastNode cur c cs[i + 1]?) (i + 1)
  else some (.rest cur)
termination_by cs.length - i

/-- The state at the first character of a line after its indentation. -/
def Pending.start (p : Pending) (continued : Bool) (indent : Nat) : Cursor where
  quote := p.quote
  depth := p.depth
  plain := p.plain
  node := if continued then false else if p.quote.isNone && p.depth == 0 then true else p.flowNode
  owner := indent
  entry := none
  marker := none
  afterColon := false
  minIndent := p.continuation

def Pending.scanContentAt? (p : Pending) (continued : Bool) (indent : Nat) (cs : List Char) :
    Option (Except (Feature × Nat) Pending) :=
  let cur := p.start continued indent
  if p.quote.isNone && p.depth == 0 && !continued then
    match from? cs indent, isDocumentMarkerAt? cs indent with
    | some content, some marker =>
      if content.head? == some '%' then
        some (if ['%', 'T', 'A', 'G'].isPrefixOf content then .error (.tag, indent) else .ok p)
      else
        (walkAt? cs indent cur (if marker then indent + 3 else indent)).map
          (LineEnd.left p.flowNode)
    | _, _ => none
  else (walkAt? cs indent cur indent).map (LineEnd.left p.flowNode)

/-- Whether a line that is not blank goes on with a plain scalar. -/
def continuesAt? (least indent : Nat) (cs : List Char) : Option Bool :=
  if indent < least then some false
  else match cs[indent]? with
    | none => none
    | some c => if c == '#' then some false else (isDocumentMarkerAt? cs indent).map (!·)

def Pending.scanLineAt? (p : Pending) (cs : List Char) :
    Option (Except (Feature × Nat) Pending) :=
  let indent := indentation cs
  let inBody := match p.bodyParent with
    | some parent => indent == cs.length || parent < indent
    | none => false
  if inBody then some (.ok p)
  else
    let p := { p with bodyParent := none }
    match p.continuation with
    | none => p.scanContentAt? false indent cs
    | some least =>
      if indent == cs.length then some (.ok p)
      else match continuesAt? least indent cs with
        | none => none
        | some true => p.scanContentAt? true indent cs
        | some false =>
          { p with continuation := none, plain := false }.scanContentAt? false indent cs

def findFromAt? (p : Pending) (line : Nat) : List (List Char) → Option (Option Location)
  | [] => some none
  | l :: rest =>
    match p.scanLineAt? l with
    | none => none
    | some (.error (feature, column)) => some (some ⟨feature, line, column + 1⟩)
    | some (.ok p) => findFromAt? p (line + 1) rest

/-- The first refused feature in a text. There is no result if a reading is out of range. -/
def findAt? (text : List Char) : Option (Option Location) :=
  findFromAt? .nothing 1 (lines text)

/-! ## No reading is out of range -/

theorem isDocumentMarkerAt?_eq (cs : List Char) (indent : Nat) :
    isDocumentMarkerAt? cs indent =
      some (indent == 0 && isDocumentMarker (cs.drop indent)) := by
  cases indent with
  | zero =>
    match cs with
    | [] | [_] | [_, _] => rfl
    | a :: b :: c :: rest =>
      have hrest : (a :: b :: c :: rest)[3]? = rest.head? := by cases rest <;> rfl
      simp [isDocumentMarkerAt?, upTo?, isDocumentMarker, hrest, Bool.and_assoc]
  | succ indent => rfl

theorem isMergeKey_cons_cons (a b : Char) (rest : List Char) :
    isMergeKey (a :: b :: rest) = (a == '<' && b == '<' &&
      (rest.dropWhile (· == ' '))[0]? == some ':' &&
        isSeparator (rest.dropWhile (· == ' '))[1]?) := by
  by_cases ha : a = '<'
  · by_cases hb : b = '<'
    · subst ha hb
      unfold isMergeKey
      split
      · rename_i rest' heq
        obtain rfl : rest = rest' := by simpa using heq
        split
        · rename_i after hafter
          cases after <;> simp [hafter]
        · rename_i hnot
          cases hdrop : rest.dropWhile (· == ' ') with
          | nil => simp
          | cons c after =>
            have hc : c ≠ ':' := fun hc => hnot after (hc ▸ hdrop)
            simp [hc]
      · rename_i hnot
        exact absurd rfl (hnot rest)
    · simp [isMergeKey, hb]
  · simp [isMergeKey, ha]

theorem isMergeKeyAt?_eq (cs : List Char) : isMergeKeyAt? cs = some (isMergeKey cs) := by
  match cs with
  | [] => rfl
  | [a] => simp [isMergeKeyAt?, isMergeKey]
  | [a, b] => simp [isMergeKeyAt?, isMergeKey_cons_cons]
  | a :: b :: c :: rest =>
    have hspaces : ∀ k, (c :: rest)[((c :: rest).takeWhile (· == ' ')).length + k]? =
        ((c :: rest).dropWhile (· == ' '))[k]? := by
      intro k
      rw [← List.getElem?_drop, drop_length_takeWhile]
    have hfrom : from? (a :: b :: c :: rest) 2 = some (c :: rest) := by simp [from?]
    rw [isMergeKey_cons_cons, isMergeKeyAt?, hfrom]
    by_cases ha : a = '<'
    · by_cases hb : b = '<'
      · simp [ha, hb, ← hspaces]
      · simp [hb]
    · simp [ha]

theorem beginsCommentAt?_append (front rest : List Char) (c : Char) :
    beginsCommentAt? (front ++ rest) front.length c =
      some (c == '#' && isSeparator front.getLast?) := by
  obtain rfl | ⟨front, d, rfl⟩ := List.eq_nil_or_concat front
  · by_cases hc : c = '#' <;> simp [beginsCommentAt?, hc, isSeparator]
  · by_cases hc : c = '#' <;> simp [beginsCommentAt?, hc, isSeparator]

theorem getElem?_append_next (front : List Char) (c : Char) (rest : List Char) :
    (front ++ c :: rest)[front.length + 1]? = rest.head? := by
  rw [List.getElem?_append_right (by omega)]
  cases rest <;> simp

theorem atNodeAt?_append (cur : Cursor) (indent : Nat) (front : List Char) (c : Char)
    (rest : List Char) :
    atNodeAt? (front ++ c :: rest) cur indent front.length c =
      some (atNode cur indent front.length c rest) := by
  have hslice : from? (front ++ c :: rest) front.length = some (c :: rest) := by simp [from?]
  have hhead : rest.head?.toList.head? = rest.head? := by cases rest <;> rfl
  rw [atNodeAt?, hslice, getElem?_append_next]
  by_cases hc : c = '<'
  · subst hc
    have hshort : isMergeKey ('<' :: rest.head?.toList) = false := by
      cases rest with
      | nil => rfl
      | cons d rest => simp [isMergeKey_cons_cons]
    cases hmerge : isMergeKey ('<' :: rest) <;>
      simp [isMergeKeyAt?_eq, hmerge, atNode, hhead, hshort]
  · simp [hc, atNode, hhead]

/-- At a position within the line all readings of a step are in range. -/
theorem walkAt?_cons (front : List Char) (c : Char) (rest : List Char) (indent : Nat)
    (cur : Cursor) :
    walkAt? (front ++ c :: rest) indent cur front.length =
      match cur.quote with
      | some q =>
        if (q == '"' && c == '\\') || (q == '\'' && c == '\'' && rest.head? == some '\'') then
          walkAt? (front ++ c :: rest) indent cur (front.length + 2)
        else
          walkAt? (front ++ c :: rest) indent { cur with quote := if c == q then none else some q }
            (front.length + 1)
      | none =>
        if c == ' ' || c == '\t' then
          walkAt? (front ++ c :: rest) indent cur (front.length + 1)
        else if c == '#' && isSeparator front.getLast? then some (.rest { cur with plain := false })
        else if cur.node then
          match atNode cur indent front.length c rest with
          | .inl ended => some ended
          | .inr cur => walkAt? (front ++ c :: rest) indent cur (front.length + 1)
        else
          walkAt? (front ++ c :: rest) indent (pastNode cur c rest.head?) (front.length + 1) := by
  have hlt : front.length < (front ++ c :: rest).length := by simp
  have hget : (front ++ c :: rest)[front.length]? = some c := by simp
  rw [walkAt?, if_pos hlt, hget]
  simp only [getElem?_append_next, beginsCommentAt?_append, atNodeAt?_append]
  cases cur.quote with
  | some q => rfl
  | none =>
    cases hcomment : c == '#' && isSeparator front.getLast? with
    | true => rfl
    | false =>
      simp only [Bool.false_eq_true, ↓reduceIte]
      cases atNode cur indent front.length c rest <;> rfl

/-- The scan from a position on is that of the characters from there on. -/
theorem walkAt?_append (front rest : List Char) {prev : Option Char} {column : Nat} (indent : Nat)
    (cur : Cursor) (hprev : prev = front.getLast?) (hcolumn : column = front.length) :
    walkAt? (front ++ rest) indent cur column = some (walk indent cur prev column rest) := by
  -- With each step characters move over from the rest to the front.
  fun_induction walk indent cur prev column rest generalizing front with
  | case1 cur prev column =>
    subst hcolumn
    rw [walkAt?, if_neg (by simp)]
  | case2 cur prev column c q hquote hescape =>
    subst hcolumn
    rw [walkAt?_cons, hquote]
    simp only [hescape, ↓reduceIte]
    rw [walkAt?, if_neg (by simp)]
  | case3 cur prev column c q hquote d rest hescape ih =>
    subst hcolumn
    rw [walkAt?_cons, hquote]
    simp only [hescape, ↓reduceIte]
    rw [List.append_cons, List.append_cons]
    exact ih _ (by simp) (by simp)
  | case4 cur prev column c rest q hquote hescape ih =>
    subst hcolumn
    rw [walkAt?_cons, hquote]
    simp only [hescape]
    rw [List.append_cons]
    exact ih _ (by simp) (by simp)
  | case5 cur prev column c rest hquote hblank ih =>
    subst hcolumn
    rw [walkAt?_cons, hquote]
    simp only [hblank, ↓reduceIte]
    rw [List.append_cons]
    exact ih _ (by simp) (by simp)
  | case6 cur prev column c rest hquote hblank hcomment =>
    subst hcolumn hprev
    rw [walkAt?_cons, hquote]
    simp only [hblank, hcomment, ↓reduceIte]
    trivial
  | case7 cur prev column c rest hquote hblank hcomment hnode ended hended =>
    subst hcolumn hprev
    rw [walkAt?_cons, hquote]
    simp only [hblank, hcomment, hnode, hended, ↓reduceIte]
    trivial
  | case8 cur prev column c rest hquote hblank hcomment hnode cur' hgoes ih =>
    subst hcolumn hprev
    rw [walkAt?_cons, hquote]
    simp only [hblank, hcomment, hnode, hgoes, ↓reduceIte]
    rw [List.append_cons]
    exact ih _ (by simp) (by simp)
  | case9 cur prev column c rest hquote hblank hcomment hnode ih =>
    subst hcolumn hprev
    rw [walkAt?_cons, hquote]
    simp only [hblank, hcomment, hnode]
    rw [List.append_cons]
    exact ih _ (by simp) (by simp)

theorem walkAt?_eq {cs : List Char} {i : Nat} (h : i ≤ cs.length) (indent : Nat)
    (cur : Cursor) : walkAt? cs indent cur i =
      some (walk indent cur (cs.take i).getLast? i (cs.drop i)) := by
  have hwalk := walkAt?_append (cs.take i) (cs.drop i) indent cur rfl
    (List.length_take_of_le h).symm
  rwa [List.take_append_drop] at hwalk

section Lines

variable {cs : List Char}

theorem indentation_le (cs : List Char) : indentation cs ≤ cs.length :=
  (List.takeWhile_prefix _).length_le

theorem takeWhile_space (cs : List Char) :
    cs.takeWhile (· == ' ') = List.replicate (indentation cs) ' ' :=
  List.eq_replicate_of_mem fun c hc => by simpa using List.mem_takeWhile_imp hc

theorem take_indentation (cs : List Char) :
    cs.take (indentation cs) = List.replicate (indentation cs) ' ' := by
  rw [← takeWhile_space]
  exact (List.prefix_iff_eq_take.mp (List.takeWhile_prefix _)).symm

theorem getLast?_take_indentation (cs : List Char) :
    (cs.take (indentation cs)).getLast? = before (indentation cs) := by
  rw [take_indentation, before, List.getLast?_replicate]
  cases indentation cs <;> rfl

theorem three_le_of_isDocumentMarker (h : isDocumentMarker cs) : 3 ≤ cs.length := by
  match cs with
  | [] | [_] | [_, _] => simp [isDocumentMarker] at h
  | _ :: _ :: _ :: _ => simp

/-- The scan of a line begins at its text, past the marker of a document. -/
theorem scanContent_eq (p : Pending) (continued : Bool) (indent : Nat) (content : List Char) :
    p.scanContent continued indent content =
      if p.quote.isNone && p.depth == 0 && !continued && content.head? == some '%' then
        if ['%', 'T', 'A', 'G'].isPrefixOf content then .error (.tag, indent) else .ok p
      else if p.quote.isNone && p.depth == 0 && !continued && indent == 0 &&
          isDocumentMarker content then
        (walk 0 (p.start continued 0) content[2]? 3 (content.drop 3)).left p.flowNode
      else (walk indent (p.start continued indent) (before indent) indent content).left
        p.flowNode := by
  unfold Pending.scanContent
  dsimp only
  by_cases hdirective : p.quote.isNone && p.depth == 0 && !continued && content.head? == some '%'
  · simp [hdirective]
  · rw [if_neg hdirective, if_neg hdirective]
    by_cases hmarker : p.quote.isNone && p.depth == 0 && !continued && indent == 0 &&
      isDocumentMarker content
    · have hindent : (indent == 0) = true := by grind
      obtain rfl : indent = 0 := by simpa using hindent
      simp only [hmarker]
      rfl
    · simp only [hmarker]
      rfl

theorem scanContentAt?_eq (p : Pending) (continued : Bool) (cs : List Char) :
    p.scanContentAt? continued (indentation cs) cs =
      some (p.scanContent continued (indentation cs) (cs.drop (indentation cs))) := by
  have hindent := indentation_le cs
  have hfrom : from? cs (indentation cs) = some (cs.drop (indentation cs)) := if_pos hindent
  have hplain : walkAt? cs (indentation cs) (p.start continued (indentation cs))
      (indentation cs) = some (walk (indentation cs) (p.start continued (indentation cs))
        (before (indentation cs)) (indentation cs) (cs.drop (indentation cs))) := by
    rw [walkAt?_eq hindent, getLast?_take_indentation]
  rw [scanContent_eq]
  unfold Pending.scanContentAt?
  simp only [hfrom, isDocumentMarkerAt?_eq]
  by_cases hfresh : p.quote.isNone && p.depth == 0 && !continued
  · simp only [hfresh, Bool.true_and, ↓reduceIte]
    cases hdirective : (cs.drop (indentation cs)).head? == some '%' with
    | true => rfl
    | false =>
      cases hmarker : indentation cs == 0 && isDocumentMarker (cs.drop (indentation cs)) with
      | false =>
        simp only [Bool.false_eq_true, ↓reduceIte, hplain]
        rfl
      | true =>
        obtain ⟨hzero, hmark⟩ := Bool.and_eq_true_iff.mp hmarker
        have hzero : indentation cs = 0 := by simpa using hzero
        simp only [hzero, List.drop_zero] at hmark ⊢
        have hwalk := walkAt?_eq (three_le_of_isDocumentMarker hmark) 0 (p.start continued 0)
        have hprev : (cs.take 3).getLast? = cs[2]? := by
          have hthree := three_le_of_isDocumentMarker hmark
          rw [List.getLast?_eq_getElem?, List.length_take_of_le hthree]
          exact List.getElem?_take_of_lt (by omega)
        rw [hprev] at hwalk
        simp [hwalk]
  · simp [hfresh, hplain]

theorem continuesAt?_eq (least : Nat) (h : indentation cs < cs.length) :
    continuesAt? least (indentation cs) cs =
      some (least ≤ indentation cs && (cs.drop (indentation cs)).head? != some '#' &&
        !(indentation cs == 0 && isDocumentMarker (cs.drop (indentation cs)))) := by
  rw [List.head?_drop, continuesAt?, List.getElem?_eq_getElem h, isDocumentMarkerAt?_eq]
  by_cases hleast : indentation cs < least
  · simp [hleast]
  · by_cases hcomment : cs[indentation cs] = '#'
    · simp [hcomment]
    · simp [hleast, hcomment, Nat.not_lt.mp hleast]

theorem scanLineAt?_eq (p : Pending) (cs : List Char) :
    p.scanLineAt? cs = some (p.scanLine cs) := by
  have hempty : (cs.drop (indentation cs)).isEmpty = (indentation cs == cs.length) := by
    have hle := indentation_le cs
    rw [Bool.eq_iff_iff, List.isEmpty_iff, List.drop_eq_nil_iff, beq_iff_eq]
    omega
  have hindent : (cs.takeWhile (· == ' ')).length = indentation cs := rfl
  unfold Pending.scanLineAt? Pending.scanLine
  simp only [scanContentAt?_eq, hindent, hempty]
  rw [apply_ite some]
  refine ite_congr rfl (fun _ => rfl) fun _ => ?_
  cases p.continuation with
  | none => rfl
  | some least =>
    by_cases hblank : indentation cs = cs.length
    · simp [hblank]
    · have hlt : indentation cs < cs.length := by
        have hle := indentation_le cs
        omega
      simp only [continuesAt?_eq least hlt, beq_iff_eq, hblank, ↓reduceIte]
      generalize (decide (least ≤ indentation cs) &&
        (cs.drop (indentation cs)).head? != some '#' &&
        !(indentation cs == 0 && isDocumentMarker (cs.drop (indentation cs)))) = goesOn
      cases goesOn <;> rfl

theorem findFromAt?_eq (p : Pending) (n : Nat) (ls : List (List Char)) :
    findFromAt? p n ls = some (findFrom p n ls) := by
  induction ls generalizing p n with
  | nil => rfl
  | cons l ls ih =>
    rw [findFromAt?, findFrom, scanLineAt?_eq]
    cases p.scanLine l with
    | error e => rfl
    | ok next => exact ih next (n + 1)

/-- No reading is out of range, in any text. -/
theorem findAt?_eq (text : List Char) : findAt? text = some (find? text) :=
  findFromAt?_eq ..

end Lines

end NotebookProject.Feature
