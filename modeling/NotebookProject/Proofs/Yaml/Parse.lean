import NotebookProject.Proofs.Tree.Sound
import NotebookProject.Proofs.Yaml.Events
import NotebookProject.Proofs.Yaml.Meaning
import NotebookProject.Yaml.Decode

/-!
# Parsing written trees

The text of a record parses as the record itself, with the entries of all records in ascending
order of their keys.

## Main results

* `parse_written`: a sound record is read back from its text.
-/

namespace NotebookProject.Yaml

/-! ## Events without properties -/

/-- The events of nodes without anchors and tags. -/
def isBare : Event → Bool
  | .scalar p _ _ | .sequenceStart p | .mappingStart p => p == .none
  | .sequenceEnd | .mappingEnd => true
  | _ => false

mutual

theorem isBare_nodeEvents : (t : Tree) → ∀ e ∈ nodeEvents t, isBare e
  | .null | .bool true | .bool false | .number _ | .string _ => by simp [nodeEvents, isBare]
  | .list ts => by
    have hitems := isBare_itemEvents ts
    simp only [nodeEvents, List.forall_mem_cons, List.forall_mem_append]
    exact ⟨rfl, hitems, rfl, by simp⟩
  | .record es => by
    have hentries := isBare_entryEvents es
    simp only [nodeEvents, List.forall_mem_cons, List.forall_mem_append]
    exact ⟨rfl, hentries, rfl, by simp⟩

theorem isBare_itemEvents : (ts : List Tree) → ∀ e ∈ itemEvents ts, isBare e
  | [] => by simp [itemEvents]
  | t :: rest => by
    have ht := isBare_nodeEvents t
    have hrest := isBare_itemEvents rest
    rw [itemEvents, List.forall_mem_append]
    exact ⟨ht, hrest⟩

theorem isBare_entryEvents : (es : List (String × Tree)) → ∀ e ∈ entryEvents es, isBare e
  | [] => by simp [entryEvents]
  | (k, t) :: rest => by
    have ht := isBare_nodeEvents t
    have hrest := isBare_entryEvents rest
    rw [entryEvents, List.forall_mem_cons, List.forall_mem_append]
    exact ⟨rfl, ht, hrest⟩

end

variable {hs : List Happening}

/-- Without anchors and aliases there is nothing to number. -/
theorem number_of_isBare (names : List (String × Nat)) (h : ∀ e ∈ hs.map (·.event), isBare e) :
    (Linked.number names hs).map (·.event) = hs.map (·.event) := by
  induction hs with
  | nil => rfl
  | cons x hs ih =>
    obtain ⟨hx, hhs⟩ := List.forall_mem_cons.mp h
    obtain ⟨mark, event⟩ := x
    cases event with
    | scalar p text style | sequenceStart p | mappingStart p =>
      obtain rfl : p = .none := beq_iff_eq.mp hx
      simp [Linked.number, Linked.anchorOf, Properties.none, ih hhs]
    | sequenceEnd | mappingEnd => simp [Linked.number, Linked.anchorOf, ih hhs]
    | _ => cases hx

/-- A document ends with its first end. -/
theorem firstDocument_append (mark : Mark) (after : List Happening)
    (h : ∀ e ∈ hs.map (·.event), isBare e) :
    firstDocument (hs ++ ⟨mark, .documentEnd⟩ :: after) = (hs, some after) := by
  induction hs with
  | nil => rfl
  | cons x hs ih =>
    obtain ⟨hx, hhs⟩ := List.forall_mem_cons.mp h
    obtain ⟨mark', event⟩ := x
    cases event with
    | scalar | sequenceStart | mappingStart | sequenceEnd | mappingEnd =>
      simp [firstDocument, ih hhs]
    | _ => cases hx

/-! ## Nodes -/

/-- The events of a tree are built as a node that stands for the tree with its records in
order. -/
def Node.Builds (t : Tree) : Prop :=
  ∀ (depth : Nat) (targets : List (Nat × List Linked)) (fuel budget : Nat) (ls rest : List Linked),
    t.Sound depth → ls.map (·.event) = nodeEvents t → ls.length ≤ fuel →
    ∃ node, build targets fuel depth budget (ls ++ rest) = (node, budget, rest) ∧
      ∀ path, node.toTree path = .ok (t.arrange .sorted)

namespace Node

variable {t : Tree} {depth fuel budget : Nat} {targets : List (Nat × List Linked)}
  {ls rest : List Linked}

theorem exists_linked {ls : List Linked} {event : Event} {later : List Event}
    (h : ls.map (·.event) = event :: later) :
    ∃ mark anchor others, ls = ⟨mark, event, anchor⟩ :: others ∧
      others.map (·.event) = later := by
  obtain ⟨⟨mark, event, anchor⟩, others, rfl, rfl, hothers⟩ := List.map_eq_cons_iff.mp h
  exact ⟨mark, anchor, others, rfl, hothers⟩

/-- A scalar without properties. -/
theorem builds_scalar (targets : List (Nat × List Linked)) (depth budget : Nat) (rest : List Linked)
    {text : String} {style : ScalarStyle}
    (hls : ls.map (·.event) = [.scalar .none text style]) (hfuel : ls.length ≤ fuel) :
    ∃ mark, build targets fuel depth budget (ls ++ rest) =
      (.scalar mark none text style, budget, rest) := by
  obtain ⟨mark, anchor, others, rfl, hothers⟩ := exists_linked hls
  obtain rfl : others = [] := List.map_eq_nil_iff.mp hothers
  cases fuel with
  | zero => simp at hfuel
  | succ fuel => exact ⟨mark, by rw [List.cons_append, List.nil_append, build.eq_def]; rfl⟩

/-- A plain scalar means what its text does. -/
theorem builds_plain {text : String} {m : Meaning}
    (hevents : nodeEvents t = [.scalar .none text .plain])
    (hmeaning : Meaning.ofPlain text = m) (htree : scalarTree text m = .ok (t.arrange .sorted)) :
    Builds t := by
  intro depth targets fuel budget ls rest _ hls hfuel
  obtain ⟨mark, hbuild⟩ := builds_scalar targets depth budget rest (hls.trans hevents) hfuel
  refine ⟨_, hbuild, fun path => ?_⟩
  simp [toTree, isLocalTag, scalarMeaning, hmeaning, htree, Except.mapError]

/-- What a string means in the style that it is written in. -/
theorem scalarMeaning_ofText (s : String) : scalarMeaning none s (.ofText s) = some .text := by
  have hborne := borne_ofText s
  generalize ScalarStyle.ofText s = style at hborne
  cases hborne with
  | plain _ hmeaning => simp [scalarMeaning, hmeaning]
  | singleQuoted _ => rfl
  | doubleQuoted => rfl
  | literal _ _ => rfl

theorem builds_string (s : String) : Builds (.string s) := by
  intro depth targets fuel budget ls rest _ hls hfuel
  obtain ⟨mark, hbuild⟩ := builds_scalar targets depth budget rest hls hfuel
  refine ⟨_, hbuild, fun path => ?_⟩
  simp [toTree, isLocalTag, scalarMeaning_ofText, scalarTree, Except.mapError, Tree.arrange]

theorem toKey_ofText (path : Option String) (mark : Mark) (key : String) :
    toKey path (.scalar mark none key (.ofText key)) = .ok key := by
  simp [toKey, isLocalTag, scalarMeaning_ofText, keyText, Except.mapError]

/-! ## Collections -/

/-- No node begins with the end of a collection. -/
theorem nodeEvents_head (t : Tree) :
    ∃ event later, nodeEvents t = event :: later ∧ event ≠ .sequenceEnd ∧ event ≠ .mappingEnd := by
  cases t with
  | bool b => cases b <;> exact ⟨_, _, rfl, by simp, by simp⟩
  | _ => exact ⟨_, _, rfl, by simp, by simp⟩

/-- The items of a sequence. -/
theorem buildItems_itemEvents (targets : List (Nat × List Linked)) (budget : Nat)
    (rest : List Linked) {ts : List Tree} (hts : ∀ t ∈ ts, Builds t)
    (hsound : ∀ t ∈ ts, t.Sound depth) (hls : ls.map (·.event) = itemEvents ts ++ [.sequenceEnd])
    (hfuel : ls.length ≤ fuel) :
    ∃ nodes, buildItems targets fuel depth budget (ls ++ rest) = (nodes, budget, rest) ∧
      ∀ path index, toItems path index nodes = .ok (Tree.arrangeItems .sorted ts) := by
  induction ts generalizing ls fuel with
  | nil =>
    obtain ⟨mark, anchor, others, rfl, hothers⟩ := exists_linked hls
    obtain rfl : others = [] := List.map_eq_nil_iff.mp hothers
    cases fuel with
    | zero => simp at hfuel
    | succ fuel => exact ⟨[], by simp [buildItems], fun _ _ => by simp [toItems, Tree.arrangeItems]⟩
  | cons t ts ih =>
    obtain ⟨ht, hts⟩ := List.forall_mem_cons.mp hts
    obtain ⟨hsound, hsounds⟩ := List.forall_mem_cons.mp hsound
    rw [itemEvents, List.append_assoc] at hls
    obtain ⟨first, others, rfl, hfirst, hothers⟩ := List.map_eq_append_iff.mp hls
    obtain ⟨event, later, hevents, hne, -⟩ := nodeEvents_head t
    obtain ⟨mark, anchor, inner, rfl, -⟩ := exists_linked (hfirst.trans hevents)
    rw [List.length_append, List.length_cons] at hfuel
    cases fuel with
    | zero => omega
    | succ fuel =>
      have hpos : 0 < others.length := by
        rw [← List.length_map (f := (·.event)), hothers]
        simp
      obtain ⟨node, hbuild, htree⟩ := ht depth targets fuel budget _ (others ++ rest) hsound hfirst
        (by rw [List.length_cons]; omega)
      obtain ⟨nodes, hbuilds, htrees⟩ := ih hts hsounds hothers (show others.length ≤ fuel by omega)
      refine ⟨node :: nodes, ?_, fun path index => ?_⟩
      · rw [List.cons_append] at hbuild
        simp [buildItems, hne, hbuild, hbuilds]
      · simp [toItems, htree, htrees, Except.map, Tree.arrangeItems]

/-- The entries of a mapping, which are put in order one after the other. -/
theorem buildEntries_entryEvents (targets : List (Nat × List Linked)) (budget : Nat)
    (rest : List Linked) {es : Entries} (hes : ∀ e ∈ es, Builds e.2)
    (hsound : ∀ e ∈ es, e.2.Sound depth)
    (hls : ls.map (·.event) = entryEvents es ++ [.mappingEnd]) (hfuel : ls.length ≤ fuel) :
    ∃ nodes, buildEntries targets fuel depth budget (ls ++ rest) = (nodes, budget, rest) ∧
      ∀ path mark (done : Entries), (es.map Prod.fst).Nodup → (∀ e ∈ es, done.get? e.1 = none) →
        toEntries path mark done nodes = .ok (done.insertAll (Tree.arrangeEntries .sorted es)) := by
  induction es generalizing ls fuel with
  | nil =>
    obtain ⟨mark, anchor, others, rfl, hothers⟩ := exists_linked hls
    obtain rfl : others = [] := List.map_eq_nil_iff.mp hothers
    cases fuel with
    | zero => simp at hfuel
    | succ fuel =>
      exact ⟨[], by simp [buildEntries], fun _ _ _ _ _ => by
        simp [toEntries, Tree.arrangeEntries, Entries.insertAll]⟩
  | cons e es ih =>
    obtain ⟨key, t⟩ := e
    obtain ⟨ht, hes⟩ := List.forall_mem_cons.mp hes
    obtain ⟨hsound, hsounds⟩ := List.forall_mem_cons.mp hsound
    rw [entryEvents, List.cons_append, List.append_assoc] at hls
    obtain ⟨mark, anchor, later, rfl, hlater⟩ := exists_linked hls
    obtain ⟨first, others, rfl, hfirst, hothers⟩ := List.map_eq_append_iff.mp hlater
    rw [List.length_cons, List.length_append] at hfuel
    cases fuel with
    | zero => omega
    | succ fuel =>
      have hpos : 0 < others.length := by
        rw [← List.length_map (f := (·.event)), hothers]
        simp
      obtain ⟨node, hbuild, htree⟩ := ht depth targets fuel budget first (others ++ rest) hsound
        hfirst (by omega)
      obtain ⟨nodes, hbuilds, htrees⟩ := ih hes hsounds hothers (show others.length ≤ fuel by omega)
      have hsingle : [(⟨mark, .scalar .none key (.ofText key), anchor⟩ : Linked)].length ≤ fuel := by
        rw [List.length_singleton]
        omega
      obtain ⟨markKey, hkey⟩ :=
        builds_scalar targets depth budget (first ++ (others ++ rest)) rfl hsingle
      refine ⟨(.scalar markKey none key (.ofText key), node) :: nodes, ?_,
        fun path mark done hkeys hdone => ?_⟩
      · rw [List.cons_append, List.nil_append] at hkey
        simp [buildEntries, hkey, hbuild, hbuilds]
      · obtain ⟨hkey, hkeys⟩ := List.nodup_cons.mp hkeys
        obtain ⟨hfresh, hdone⟩ := List.forall_mem_cons.mp hdone
        have hothers : ∀ e ∈ es, (done.insert key (t.arrange .sorted)).get? e.1 = none := by
          intro e he
          have hmem : e.1 ∈ es.map Prod.fst := List.mem_map_of_mem he
          have hne : e.1 ≠ key := fun heq => hkey (heq ▸ hmem)
          rw [Entries.get?_insert, if_neg hne]
          exact hdone e he
        simp [toEntries, toKey_ofText, hfresh, htree, htrees path mark _ hkeys hothers,
          Tree.arrangeEntries, Entries.insertAll]

theorem builds_list {ts : List Tree} (hts : ∀ t ∈ ts, Builds t) : Builds (.list ts) := by
  intro depth targets fuel budget ls rest hsound hls hfuel
  obtain ⟨depth, rfl⟩ := hsound.pos_of_list
  obtain ⟨mark, anchor, inner, rfl, hinner⟩ := exists_linked hls
  rw [List.length_cons] at hfuel
  cases fuel with
  | zero => omega
  | succ fuel =>
    obtain ⟨nodes, hbuild, htrees⟩ := buildItems_itemEvents targets budget rest hts hsound
      hinner (Nat.le_of_succ_le_succ hfuel)
    refine ⟨.sequence mark none nodes, ?_, fun path => ?_⟩
    · rw [List.cons_append, build.eq_def]
      simp [hbuild, Properties.none]
    · simp [toTree, isLocalTag, htrees, Except.map, Tree.arrange]

theorem builds_record {es : Entries} (hes : ∀ e ∈ es, Builds e.2) : Builds (.record es) := by
  intro depth targets fuel budget ls rest hsound hls hfuel
  obtain ⟨depth, rfl⟩ := hsound.pos_of_record
  obtain ⟨mark, anchor, inner, rfl, hinner⟩ := exists_linked hls
  obtain ⟨hkeys, hsounds⟩ := Tree.sound_record.mp hsound
  rw [List.length_cons] at hfuel
  cases fuel with
  | zero => omega
  | succ fuel =>
    obtain ⟨nodes, hbuild, htrees⟩ := buildEntries_entryEvents targets budget rest hes
      hsounds hinner (Nat.le_of_succ_le_succ hfuel)
    refine ⟨.mapping mark none nodes, ?_, fun path => ?_⟩
    · rw [List.cons_append, build.eq_def]
      simp [hbuild, Properties.none]
    · have hread := htrees path mark [] hkeys fun _ _ => rfl
      simp only [toTree, isLocalTag, Option.any_none, Bool.false_eq_true, ↓reduceIte, hread]
      rfl

/-- The events of every tree are built. -/
theorem builds (t : Tree) : Builds t := by
  induction t using Tree.induction with
  | null =>
    have hmeaning : Meaning.ofPlain "null" = .null := by decide
    exact builds_plain rfl hmeaning rfl
  | bool b =>
    cases b with
    | true =>
      have hmeaning : Meaning.ofPlain "true" = .bool true := by decide
      exact builds_plain rfl hmeaning rfl
    | false =>
      have hmeaning : Meaning.ofPlain "false" = .bool false := by decide
      exact builds_plain rfl hmeaning rfl
  | number x =>
    intro depth targets fuel budget ls rest hsound hls hfuel
    have hmeaning := Meaning.ofPlain_render (Tree.sound_number.mp hsound)
    have htree : scalarTree (String.ofList (x.render writtenFloat)) (Meaning.ofNumber x) =
        .ok ((Tree.number x).arrange .sorted) := by
      cases x <;> rfl
    exact builds_plain rfl hmeaning htree depth targets fuel budget ls rest hsound hls hfuel
  | string s => exact builds_string s
  | list ts ih => exact builds_list ih
  | record es ih => exact builds_record ih

end Node

/-! ## Texts -/

/-- A record is read back from its text with its entries in order. -/
theorem parse_written {e : String × Tree} {es : Entries}
    (h : (Tree.record (e :: es)).Sound Node.maxDepth) :
    parse (written (.record (e :: es))) = .ok ((Tree.record (e :: es)).arrange .sorted) := by
  obtain ⟨ms, htext, hms⟩ := ofText_entriesAt e es
  obtain ⟨hs, hstream, hevents⟩ := Grammar.ofTokens_nodeTokens hms
  have hstream : EventStream.ofText (written (.record (e :: es))) = ⟨hs, true⟩ := by
    unfold EventStream.ofText
    exact (congrArg EventStream.ofTokens htext).trans hstream
  obtain ⟨⟨mark, event⟩, others, rfl, rfl, hothers⟩ := List.map_eq_cons_iff.mp hevents
  obtain ⟨content, ends, rfl, hcontent, hends⟩ := List.map_eq_append_iff.mp hothers
  obtain ⟨⟨markEnd, event⟩, last, rfl, rfl, hlast⟩ := List.map_eq_cons_iff.mp hends
  obtain ⟨⟨markLast, event⟩, none, rfl, rfl, hnone⟩ := List.map_eq_cons_iff.mp hlast
  obtain rfl : none = [] := List.map_eq_nil_iff.mp hnone
  have hbare : ∀ event ∈ content.map (·.event), isBare event := by
    rw [hcontent]
    exact isBare_nodeEvents _
  have hdocument : firstDocument (⟨mark, .documentStart⟩ ::
      (content ++ [⟨markEnd, .documentEnd⟩, ⟨markLast, .streamEnd⟩])) =
      (content, some [⟨markLast, .streamEnd⟩]) := by
    rw [firstDocument]
    exact firstDocument_append markEnd [⟨markLast, .streamEnd⟩] hbare
  have hnumber := (number_of_isBare [] hbare).trans hcontent
  have hlength : (Linked.number [] content).length = content.length := by
    rw [← List.length_map (f := (·.event)), number_of_isBare [] hbare, List.length_map]
  obtain ⟨node, hbuild, htree⟩ := Node.builds (.record (e :: es)) Node.maxDepth
    (Linked.targets [] (Linked.number [] content))
    (4 * (Node.maxDepth + 2) * (content.length + 2)) (Node.maxVisits * content.length)
    (Linked.number [] content) [] h hnumber (by rw [hlength]; simp only [Node.maxDepth]; omega)
  have hnode : Node.ofEvents content = node := by
    rw [List.append_nil] at hbuild
    unfold Node.ofEvents
    simp [hbuild]
  unfold parse treeOfEvents
  rw [hstream]
  simp [hdocument, hnode, htree]

end NotebookProject.Yaml
