import NotebookProject.Proofs.Yaml.Tokens
import NotebookProject.Yaml.Event

/-!
# Events of written trees

The tokens of a tree follow the grammar and give the events of the tree, each collection between
its start and its end. A sequence that is not indented within its mapping has no tokens for its
start and its end, and the grammar finds both.

## Main definitions

* `nodeEvents`: the events of a tree.
* `Grammar.Yields`: events are given up to another state.
-/

namespace NotebookProject.Yaml

mutual

/-- The events of a node. -/
def nodeEvents : Tree → List Event
  | .null => [.scalar .none "null" .plain]
  | .bool true => [.scalar .none "true" .plain]
  | .bool false => [.scalar .none "false" .plain]
  | .number x => [.scalar .none (String.ofList (x.render writtenFloat)) .plain]
  | .string s => [.scalar .none s (.ofText s)]
  | .list ts => .sequenceStart .none :: (itemEvents ts ++ [.sequenceEnd])
  | .record es => .mappingStart .none :: (entryEvents es ++ [.mappingEnd])

/-- The events of the items of a sequence. -/
def itemEvents : List Tree → List Event
  | [] => []
  | t :: rest => nodeEvents t ++ itemEvents rest

/-- The events of the entries of a mapping. -/
def entryEvents : List (String × Tree) → List Event
  | [] => []
  | (k, t) :: rest => .scalar .none k (.ofText k) :: (nodeEvents t ++ entryEvents rest)

end

namespace Grammar

/-- The events are given, one step each, and then the grammar is in the other state. -/
inductive Yields : Grammar → List Event → Grammar → Prop where
  | refl (g : Grammar) : Yields g [] g
  | step {g g' last : Grammar} {h : Happening} {events : List Event} (hstep : g.step = some (h, g'))
      (hgoing : g'.expected ≠ .finished) (hrest : Yields g' events last) :
      Yields g (h.event :: events) last

variable {g g' last : Grammar} {events events' : List Event}

theorem Yields.single (mark : Mark) {event : Event} (hstep : g.step = some (⟨mark, event⟩, g'))
    (hgoing : g'.expected ≠ .finished) : Yields g [event] g' :=
  .step hstep hgoing (.refl g')

theorem Yields.trans (h : Yields g events g') (h' : Yields g' events' last) :
    Yields g (events ++ events') last := by
  induction h with
  | refl => exact h'
  | step hstep hgoing _ ih => exact .step hstep hgoing (ih h')

/-- What is given is the beginning of a run with enough fuel. -/
theorem Yields.run (h : Yields g events g') {fuel : Nat} (hfuel : events.length ≤ fuel) :
    ∃ hs : List Happening, hs.map (·.event) = events ∧ Grammar.run fuel g =
      ⟨hs ++ (Grammar.run (fuel - events.length) g').events,
        (Grammar.run (fuel - events.length) g').complete⟩ := by
  induction h generalizing fuel with
  | refl g => exact ⟨[], rfl, rfl⟩
  | step hstep hgoing _ ih =>
    rename_i h events _
    cases fuel with
    | zero => simp at hfuel
    | succ fuel =>
      obtain ⟨hs, hmap, hrun⟩ := ih (Nat.le_of_succ_le_succ hfuel)
      refine ⟨h :: hs, by simp [hmap], ?_⟩
      rw [Grammar.run, hstep]
      simp [hgoing, hrun]

/-! ## Nodes -/

theorem exists_mark {ms : List Marked} {token : Token} {later : List Token}
    (h : ms.map (·.token) = token :: later) :
    ∃ mark others, ms = ⟨mark, token⟩ :: others ∧ others.map (·.token) = later := by
  obtain ⟨⟨mark, token⟩, others, rfl, rfl, hothers⟩ := List.map_eq_cons_iff.mp h
  exact ⟨mark, others, rfl, hothers⟩

/-- A node is given, from the state before its first event. -/
def YieldsNode (loose : Bool) (g : Grammar) (events : List Event) (last : Grammar) : Prop :=
  ∃ h g' later, g.node true loose = some (h, g') ∧ g'.expected ≠ .finished ∧
    Yields g' later last ∧ events = h.event :: later

theorem YieldsNode.yields {loose : Bool} (h : YieldsNode loose g' events last)
    (hstep : g.step = g'.node true loose) : Yields g events last := by
  obtain ⟨first, next, later, hnode, hgoing, hlater, rfl⟩ := h
  exact .step (hstep.trans hnode) hgoing hlater

variable {ms rest : List Marked} {e next : Expected} {after : List Expected}
  {shorthands : List TagShorthand} {loose : Bool}

/-- A scalar is given by its only token. -/
theorem yieldsNode_scalar {text : String} {style : ScalarStyle}
    (hms : ms.map (·.token) = [.scalar text style]) (hnext : next ≠ .finished) :
    YieldsNode loose ⟨ms ++ rest, e, next :: after, shorthands⟩ [.scalar .none text style]
      ⟨rest, next, after, shorthands⟩ := by
  obtain ⟨mark, others, rfl, hothers⟩ := exists_mark hms
  obtain rfl : others = [] := List.map_eq_nil_iff.mp hothers
  exact ⟨_, _, [], rfl, hnext, .refl _, rfl⟩

/-- What follows a sequence that is not indented is no further item of it. -/
def EndsLoose (rest : List Marked) : Prop :=
  ∃ m tail, rest = m :: tail ∧ m.token ≠ .blockEntry

/-- The tokens of a tree give its events. -/
def GivesNode (t : Tree) : Prop :=
  ∀ (position : Position) (loose : Bool) (ms rest : List Marked) (e next : Expected)
    (after : List Expected) (shorthands : List TagShorthand),
    (position = .colon → loose = true ∧ EndsLoose rest) →
    ms.map (·.token) = nodeTokens position t → next ≠ .finished →
    YieldsNode loose ⟨ms ++ rest, e, next :: after, shorthands⟩ (nodeEvents t)
      ⟨rest, next, after, shorthands⟩

/-- The tokens that nodes without properties begin with. -/
def beginsNode : Token → Bool
  | .scalar _ _ | .flowSequenceStart | .flowMappingStart | .blockSequenceStart
  | .blockMappingStart | .blockEntry => true
  | _ => false

/-- Only a sequence that is not indented begins with its first item. -/
theorem nodeTokens_head (position : Position) (t : Tree) :
    ∃ token later, nodeTokens position t = token :: later ∧ beginsNode token ∧
      (position = .dash → token ≠ .blockEntry) := by
  cases t with
  | bool b => cases b <;> exact ⟨_, _, rfl, rfl, fun _ => by simp⟩
  | list ts =>
    cases ts with
    | nil => exact ⟨_, _, rfl, rfl, fun _ => by simp⟩
    | cons t ts => cases position <;> exact ⟨_, _, rfl, rfl, fun h => by cases h <;> simp⟩
  | record es => cases es <;> exact ⟨_, _, rfl, rfl, fun _ => by simp⟩
  | _ => exact ⟨_, _, rfl, rfl, fun _ => by simp⟩

/-- A node that may be missing is given if it is there. -/
theorem optionalNode_eq (position : Position) (t : Tree) {ends : Token → Bool}
    (hms : ms.map (·.token) = nodeTokens position t)
    (hends : ∀ token, beginsNode token → (position = .dash → token ≠ .blockEntry) →
      ends token = false) (loose : Bool) :
    optionalNode true loose ends next ⟨ms ++ rest, e, after, shorthands⟩ =
      node true loose ⟨ms ++ rest, e, next :: after, shorthands⟩ := by
  obtain ⟨token, later, htokens, hbegins, hdash⟩ := nodeTokens_head position t
  obtain ⟨m, ms, rfl, hm, -⟩ := List.map_eq_cons_iff.mp (hms.trans htokens)
  have hnot : ends m.token = false := hends m.token (hm ▸ hbegins) (hm ▸ hdash)
  simp [optionalNode, hnot]

/-! ## Collections -/

/-- The items of a sequence. -/
theorem yields_items (rest : List Marked) (after : List Expected) (shorthands : List TagShorthand)
    {expected : Expected} (hexpected : expected = .blockEntry ∨
      expected = .looseEntry) {ts : List Tree} (hts : ∀ t ∈ ts, GivesNode t)
    (hms : ms.map (·.token) = itemTokens ts) :
    Yields ⟨ms ++ rest, expected, after, shorthands⟩ (itemEvents ts)
      ⟨rest, expected, after, shorthands⟩ := by
  induction ts generalizing ms with
  | nil =>
    obtain rfl : ms = [] := List.map_eq_nil_iff.mp hms
    exact .refl _
  | cons t ts ih =>
    obtain ⟨ht, hts⟩ := List.forall_mem_cons.mp hts
    rw [itemTokens] at hms
    obtain ⟨mark, ms, rfl, hitem⟩ := exists_mark hms
    obtain ⟨first, others, rfl, hfirst, hothers⟩ := List.map_eq_append_iff.mp hitem
    have hne : expected ≠ .finished := by rcases hexpected with rfl | rfl <;> simp
    have hnode := ht .dash false first (others ++ rest) expected expected after shorthands (by simp)
      hfirst hne
    have hstep : step ⟨⟨mark, .blockEntry⟩ :: (first ++ others) ++ rest, expected, after,
        shorthands⟩ =
        node true false ⟨first ++ (others ++ rest), expected, expected :: after, shorthands⟩ := by
      rw [List.cons_append, List.append_assoc]
      rcases hexpected with rfl | rfl
      · exact optionalNode_eq .dash t hfirst
          (by intro token hbegins hdash; cases token <;> simp_all [beginsNode]) false
      · exact optionalNode_eq .dash t hfirst
          (by intro token hbegins hdash; cases token <;> simp_all [beginsNode, endsBlockEntry]) false
    exact (hnode.yields hstep).trans (ih hts hothers)

/-- The entries of a mapping. -/
theorem yields_entries (after : List Expected) (shorthands : List TagShorthand) {es : Entries}
    (hes : ∀ e ∈ es, GivesNode e.2)
    (hms : ms.map (·.token) = entryTokens es) (hrest : EndsLoose rest) :
    Yields ⟨ms ++ rest, .blockKey, after, shorthands⟩ (entryEvents es)
      ⟨rest, .blockKey, after, shorthands⟩ := by
  induction es generalizing ms with
  | nil =>
    obtain rfl : ms = [] := List.map_eq_nil_iff.mp hms
    exact .refl _
  | cons e es ih =>
    obtain ⟨key, t⟩ := e
    obtain ⟨ht, hes⟩ := List.forall_mem_cons.mp hes
    rw [entryTokens] at hms
    obtain ⟨mark, ms, rfl, hentry⟩ := exists_mark hms
    obtain ⟨markKey, ms, rfl, hvalue⟩ := exists_mark hentry
    obtain ⟨markValue, ms, rfl, hnodes⟩ := exists_mark hvalue
    obtain ⟨first, others, rfl, hfirst, hothers⟩ := List.map_eq_append_iff.mp hnodes
    have hloose : EndsLoose (others ++ rest) := by
      cases es with
      | nil =>
        obtain rfl : others = [] := List.map_eq_nil_iff.mp hothers
        exact hrest
      | cons e es =>
        obtain ⟨k, u⟩ := e
        rw [entryTokens] at hothers
        obtain ⟨mark, others, rfl, -⟩ := exists_mark hothers
        exact ⟨⟨mark, .key⟩, others ++ rest, rfl, by simp⟩
    have hnode := ht (keyPosition key) true first (others ++ rest) .blockValue .blockKey after
      shorthands (fun _ => ⟨rfl, hloose⟩) hfirst (by simp)
    have hvalue : step ⟨⟨markValue, .value⟩ :: (first ++ (others ++ rest)), .blockValue, after,
        shorthands⟩ = node true true
          ⟨first ++ (others ++ rest), .blockValue, .blockKey :: after, shorthands⟩ :=
      optionalNode_eq (keyPosition key) t hfirst
        (by intro token hbegins _; cases token <;> simp_all [beginsNode, endsBlockEntry]) true
    have hkey : Yields ⟨⟨mark, .key⟩ :: ⟨markKey, .scalar key (.ofText key)⟩ ::
        ⟨markValue, .value⟩ :: (first ++ (others ++ rest)), .blockKey, after, shorthands⟩
        [.scalar .none key (.ofText key)]
        ⟨⟨markValue, .value⟩ :: (first ++ (others ++ rest)), .blockValue, after, shorthands⟩ :=
      .single _ rfl (by simp)
    have hentry := hkey.trans ((hnode.yields hvalue).trans (ih hes hothers))
    simpa [entryEvents] using hentry

theorem givesNode_list {ts : List Tree} (hts : ∀ t ∈ ts, GivesNode t) : GivesNode (.list ts) := by
  intro position loose ms rest e next after shorthands hloose hms hnext
  cases ts with
  | nil =>
    obtain ⟨mark, last, rfl, hlast⟩ := exists_mark hms
    obtain ⟨markEnd, none, rfl, hnone⟩ := exists_mark hlast
    obtain rfl : none = [] := List.map_eq_nil_iff.mp hnone
    have hend : Yields ⟨⟨markEnd, .flowSequenceEnd⟩ :: rest, .flowEntry true, next :: after,
        shorthands⟩ [.sequenceEnd] ⟨rest, next, after, shorthands⟩ := .single _ rfl hnext
    exact ⟨⟨mark, .sequenceStart .none⟩, _, _, rfl, by simp, hend, rfl⟩
  | cons t ts =>
    cases position with
    | dash =>
      obtain ⟨mark, others, rfl, hothers⟩ := exists_mark hms
      obtain ⟨items, last, rfl, hitems, hlast⟩ := List.map_eq_append_iff.mp hothers
      obtain ⟨markEnd, none, rfl, hnone⟩ := exists_mark hlast
      obtain rfl : none = [] := List.map_eq_nil_iff.mp hnone
      have hinside := yields_items (⟨markEnd, .blockEnd⟩ :: rest) (next :: after) shorthands
        (.inl rfl) hts hitems
      have hend : Yields ⟨⟨markEnd, .blockEnd⟩ :: rest, .blockEntry, next :: after, shorthands⟩
          [.sequenceEnd] ⟨rest, next, after, shorthands⟩ := .single _ rfl hnext
      refine ⟨⟨mark, .sequenceStart .none⟩,
        ⟨items ++ ⟨markEnd, .blockEnd⟩ :: rest, .blockEntry, next :: after, shorthands⟩, _, ?_,
        by simp, hinside.trans hend, rfl⟩
      simp [node, properties, skip]
    | colon =>
      obtain ⟨rfl, m, tail, rfl, hm⟩ := hloose rfl
      have hinside := yields_items (m :: tail) (next :: after) shorthands (.inr rfl) hts hms
      have hend : Yields ⟨m :: tail, .looseEntry, next :: after, shorthands⟩
          [.sequenceEnd] ⟨m :: tail, next, after, shorthands⟩ := by
        obtain ⟨mark, token⟩ := m
        refine .step (h := ⟨mark, .sequenceEnd⟩) ?_ hnext (.refl _)
        unfold step
        cases token <;> first | exact absurd rfl hm | rfl
      obtain ⟨mark, others, rfl, -⟩ := exists_mark hms
      exact ⟨⟨mark, .sequenceStart .none⟩, _, _, rfl, by simp, hinside.trans hend, rfl⟩

theorem givesNode_record {es : Entries} (hes : ∀ e ∈ es, GivesNode e.2) :
    GivesNode (.record es) := by
  intro position loose ms rest e next after shorthands _ hms hnext
  cases es with
  | nil =>
    obtain ⟨mark, last, rfl, hlast⟩ := exists_mark hms
    obtain ⟨markEnd, none, rfl, hnone⟩ := exists_mark hlast
    obtain rfl : none = [] := List.map_eq_nil_iff.mp hnone
    have hend : Yields ⟨⟨markEnd, .flowMappingEnd⟩ :: rest, .flowKey true, next :: after,
        shorthands⟩ [.mappingEnd] ⟨rest, next, after, shorthands⟩ := .single _ rfl hnext
    exact ⟨⟨mark, .mappingStart .none⟩, _, _, rfl, by simp, hend, rfl⟩
  | cons entry es =>
    rw [nodeTokens] at hms
    obtain ⟨mark, others, rfl, hothers⟩ := exists_mark hms
    obtain ⟨entries, last, rfl, hentries, hlast⟩ := List.map_eq_append_iff.mp hothers
    obtain ⟨markEnd, none, rfl, hnone⟩ := exists_mark hlast
    obtain rfl : none = [] := List.map_eq_nil_iff.mp hnone
    have hafter : EndsLoose (⟨markEnd, .blockEnd⟩ :: rest) := ⟨_, _, rfl, by simp⟩
    have hinside := yields_entries (next :: after) shorthands hes hentries
      hafter
    have hend : Yields ⟨⟨markEnd, .blockEnd⟩ :: rest, .blockKey, next :: after, shorthands⟩
        [.mappingEnd] ⟨rest, next, after, shorthands⟩ := .single _ rfl hnext
    refine ⟨⟨mark, .mappingStart .none⟩,
      ⟨entries ++ ⟨markEnd, .blockEnd⟩ :: rest, .blockKey, next :: after, shorthands⟩, _, ?_,
      by simp, hinside.trans hend, rfl⟩
    simp [node, properties, skip]

/-- The tokens of every tree give its events. -/
theorem givesNode (t : Tree) : GivesNode t := by
  induction t using Tree.induction with
  | null =>
    intro position loose ms rest e next after shorthands _ hms hnext
    exact yieldsNode_scalar hms hnext
  | bool b =>
    intro position loose ms rest e next after shorthands _ hms hnext
    cases b with
    | true => exact yieldsNode_scalar hms hnext
    | false => exact yieldsNode_scalar hms hnext
  | number x =>
    intro position loose ms rest e next after shorthands _ hms hnext
    exact yieldsNode_scalar hms hnext
  | string s =>
    intro position loose ms rest e next after shorthands _ hms hnext
    exact yieldsNode_scalar hms hnext
  | list ts ih => exact givesNode_list ih
  | record es ih => exact givesNode_record ih

/-! ## Documents -/

mutual

/-- A node has at most two events for each of its tokens. -/
theorem length_nodeEvents (position : Position) :
    (t : Tree) → (nodeEvents t).length ≤ 2 * (nodeTokens position t).length
  | .null | .bool true | .bool false | .number _ | .string _ | .list [] | .record [] => by
    simp [nodeEvents, nodeTokens, itemEvents, entryEvents]
  | .list (t :: rest) => by
    have hitems := length_itemEvents (t :: rest)
    rw [List.length_cons] at hitems
    cases position <;>
      simp only [nodeEvents, nodeTokens, List.length_cons, List.length_append, List.length_nil] <;>
      omega
  | .record (e :: rest) => by
    have hentries := length_entryEvents (e :: rest)
    simp only [nodeEvents, nodeTokens, List.length_cons, List.length_append, List.length_nil]
    omega

theorem length_itemEvents :
    (ts : List Tree) → (itemEvents ts).length + 2 * ts.length ≤ 2 * (itemTokens ts).length
  | [] => by simp [itemEvents, itemTokens]
  | t :: rest => by
    have ht := length_nodeEvents .dash t
    have hrest := length_itemEvents rest
    simp only [itemEvents, itemTokens, List.length_cons, List.length_append]
    omega

theorem length_entryEvents :
    (es : List (String × Tree)) → (entryEvents es).length ≤ 2 * (entryTokens es).length
  | [] => by simp [entryEvents, entryTokens]
  | (k, t) :: rest => by
    have ht := length_nodeEvents (keyPosition k) t
    have hrest := length_entryEvents rest
    simp only [entryEvents, entryTokens, List.length_cons, List.length_append]
    omega

end

/-- A document begins without a marker. -/
theorem yields_documentStart {t : Tree} (hms : ms.map (·.token) = nodeTokens .dash t) :
    Yields ⟨ms ++ rest, .document true, [], []⟩ [.documentStart]
      ⟨ms ++ rest, .bareContent, [.documentEnd], standardShorthands⟩ := by
  obtain ⟨token, later, htokens, hbegins, hdash⟩ := nodeTokens_head .dash t
  obtain ⟨mark, others, rfl, -⟩ := exists_mark (hms.trans htokens)
  refine .single mark ?_ (by simp)
  cases token <;> first | rfl | exact absurd hbegins (by simp [beginsNode])

/-- The tokens of a tree as those of a whole text. -/
theorem ofTokens_nodeTokens {t : Tree}
    (hms : ms.map (·.token) = nodeTokens .dash t ++ [.streamEnd]) :
    ∃ hs, EventStream.ofTokens ⟨ms, true⟩ = ⟨hs, true⟩ ∧
      hs.map (·.event) = .documentStart :: (nodeEvents t ++ [.documentEnd, .streamEnd]) := by
  obtain ⟨first, last, rfl, hfirst, hlast⟩ := List.map_eq_append_iff.mp hms
  obtain ⟨mark, none, rfl, hnone⟩ := exists_mark hlast
  obtain rfl : none = [] := List.map_eq_nil_iff.mp hnone
  have hnode := givesNode t .dash false first [⟨mark, .streamEnd⟩] .bareContent .documentEnd []
    standardShorthands (by simp) hfirst (by simp)
  have hend : Yields ⟨[⟨mark, .streamEnd⟩], .documentEnd, [], standardShorthands⟩ [.documentEnd]
      ⟨[⟨mark, .streamEnd⟩], .document false, [], standardShorthands⟩ := .single _ rfl (by simp)
  have hall := (yields_documentStart hfirst).trans ((hnode.yields rfl).trans hend)
  have hlength := length_nodeEvents .dash t
  have hcount : first.length = (nodeTokens .dash t).length := by rw [← hfirst, List.length_map]
  have htotal : ([Event.documentStart] ++ (nodeEvents t ++ [Event.documentEnd])).length <
      4 * (first ++ [(⟨mark, .streamEnd⟩ : Marked)]).length + 4 := by
    simp only [List.length_append, List.length_singleton]
    omega
  obtain ⟨hs, hevents, hrun⟩ := hall.run (Nat.le_of_lt htotal)
  obtain ⟨fuel, hfuel⟩ := Nat.exists_eq_add_of_lt htotal
  have hlast : Grammar.run (4 * (first ++ [(⟨mark, .streamEnd⟩ : Marked)]).length + 4 -
        ([Event.documentStart] ++ (nodeEvents t ++ [Event.documentEnd])).length)
      ⟨[⟨mark, .streamEnd⟩], .document false, [], standardShorthands⟩ =
      ⟨[⟨mark, .streamEnd⟩], true⟩ := by
    rw [hfuel, Nat.add_assoc, Nat.add_sub_cancel_left]
    rfl
  refine ⟨hs ++ [⟨mark, .streamEnd⟩], ?_, ?_⟩
  · rw [hlast] at hrun
    exact hrun
  · rw [List.map_append, hevents]
    simp

end Grammar

end NotebookProject.Yaml
