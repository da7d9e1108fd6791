/-
# Graphs that the constructors accept

Every graph that one of the constructors accepts is well formed: its rows follow one another up to
the last target, and every target is a node. Whatever is said of well-formed graphs therefore holds
of all graphs there are, self loops, parallel relationships and a first offset other than zero
included.

The two constructors that compute offsets arrive at the same ones by different ways. A row begins
behind all targets of earlier rows; in a list of pairs, behind all pairs with a smaller source.
-/

import GraphAnalytics.Proofs.Graph.Reading
import GraphAnalytics.Proofs.Refusals

namespace GraphAnalytics.Graph

/-- The graphs that a constructor accepts, with or without external ids. -/
inductive Built : Graph → Prop
  | rows {rows : List (List Nat)} {g : Graph} (ok : ofRows rows = .ok g) : Built g
  | edges {nodeCount : Nat} {edges : List (Nat × Nat)} {g : Graph}
      (ok : ofEdges nodeCount edges = .ok g) : Built g
  | parts {offsets targets : Array Nat} {g : Graph} (ok : ofParts offsets targets = .ok g) : Built g
  | identified {ids : Array Nat} {g g' : Graph} (built : Built g)
      (ok : g.withExternalIds ids = .ok g') : Built g'

/-! ### Words -/

theorem wordAt_replicate (capacity word : Nat) {index : Nat} (h : index < capacity) :
    wordAt (.replicate capacity word) index = word := by
  rw [wordAt, PagedArray.get?_replicate capacity word h, Option.getD_some]

theorem wordAt_modify (words : PagedArray 8 Nat) (target : Nat) (f : Nat → Nat) {index : Nat}
    (h : index < words.capacity) :
    wordAt (words.modify target f) index =
      if target = index then f (wordAt words index) else wordAt words index := by
  rw [wordAt, PagedArray.get?_modify, wordAt, words.get?_of_lt h]
  split <;> rfl

theorem wordAt_set (words : PagedArray 8 Nat) (target index word : Nat) :
    wordAt (words.set target word) index =
      if target = index ∧ index < words.capacity then word else wordAt words index := by
  rw [wordAt, PagedArray.get?_set]
  split <;> rfl

theorem wordAt_packed (words : Array Nat) (index : Nat) :
    wordAt (packed words) index = (words[index]?).getD 0 := by
  rw [wordAt, packed, PagedArray.get?_ofFn]
  by_cases inside : index < words.size
  · rw [dif_pos inside, Array.getElem?_eq_getElem inside]
  · rw [dif_neg inside, Array.getElem?_eq_none (Nat.le_of_not_lt inside)]

@[simp] theorem capacity_packed (words : Array Nat) : (packed words).capacity = words.size := rfl

def Within (nodeCount : Nat) (targets : PagedArray 8 Nat) : Prop :=
  ∀ position < targets.capacity, wordAt targets position < nodeCount

theorem Within.set {nodeCount : Nat} {targets : PagedArray 8 Nat}
    (within : Within nodeCount targets) (position : Nat) {target : Nat} (h : target < nodeCount) :
    Within nodeCount (targets.set position target) := by
  intro other inside
  rw [wordAt_set]
  split
  · exact h
  · exact within other inside

/-- Before anything is written all targets are zero, and that is a node if there are targets. -/
theorem within_replicate {nodeCount capacity : Nat} (h : 0 < capacity → 0 < nodeCount) :
    Within nodeCount (.replicate capacity 0) := by
  intro position inside
  rw [wordAt_replicate capacity 0 inside]
  exact h (Nat.zero_lt_of_lt inside)

/-! ### Graphs from their arrays -/

theorem wellFormed_of_ofParts {offsets targets : Array Nat} {g : Graph}
    (ok : ofParts offsets targets = .ok g) : g.WellFormed := by
  unfold ofParts at ok
  split at ok
  · cases ok
  split at ok
  · cases ok
  split at ok
  · cases ok
  split at ok
  · cases ok
  next notEmpty ascending last _ none =>
  obtain rfl := Except.ok.inj ok
  have ascending : Ascending offsets := Classical.not_not.mp ascending
  have last : offsets.back? = some targets.size := Classical.not_not.mp last
  constructor
  case offsets_pos => exact Nat.pos_of_ne_zero notEmpty
  case rows_forward =>
    intro node h
    simp only [rowStart, rowStop, wordAt_packed]
    exact ascending node h
  case last_row =>
    show wordAt (packed offsets) (offsets.size - 1) = targets.size
    rw [wordAt_packed, ← Array.back?_eq_getElem?, last, Option.getD_some]
  case target_lt =>
    intro position h
    have inside : position < targets.size := h
    show wordAt (packed targets) position < offsets.size - 1
    rw [wordAt_packed, Array.getElem?_eq_getElem inside, Option.getD_some]
    have found := Array.find?_eq_none.mp none targets[position] (Array.getElem_mem inside)
    exact Nat.lt_of_not_le fun beyond => found (decide_eq_true beyond)
  case ids_complete =>
    intro ids attached
    cases attached

/-! ### Graphs from their rows -/

theorem Draft.of_append {nodeCount source : Nat} {row : List Nat} {before after : Draft}
    (ok : row.foldlM (Draft.append nodeCount source) before = .ok after) :
    after.offsets = before.offsets ∧ after.targets.capacity = before.targets.capacity ∧
      after.next = before.next + row.length ∧
      (Within nodeCount before.targets → Within nodeCount after.targets) := by
  induction row generalizing before with
  | nil =>
      obtain rfl := Except.ok.inj ok
      exact ⟨rfl, rfl, rfl, id⟩
  | cons target row ih =>
      rw [List.foldlM_cons] at ok
      by_cases inside : target < nodeCount
      · rw [Draft.append, if_pos inside] at ok
        obtain ⟨offsets, capacity, next, within⟩ := ih ok
        refine ⟨offsets, capacity, ?_, fun earlier => within (earlier.set _ inside)⟩
        rw [next, List.length_cons, Nat.add_comm row.length]
        exact Nat.add_assoc before.next 1 row.length
      · rw [Draft.append, if_neg inside] at ok
        cases ok

/-- Writing rows, the first of them being the row of `first`, writes the offset of each. -/
theorem Draft.of_writeRows {nodeCount first : Nat} {rows : List (List Nat)} {before after : Draft}
    (ok : (rows.zipIdx first).foldlM (Draft.writeRow nodeCount) before = .ok after)
    (room : first + rows.length ≤ before.offsets.capacity) :
    after.offsets.capacity = before.offsets.capacity ∧
      after.targets.capacity = before.targets.capacity ∧
      after.next = before.next + rows.flatten.length ∧
      (Within nodeCount before.targets → Within nodeCount after.targets) ∧
      ∀ node, wordAt after.offsets node =
        if first ≤ node ∧ node < first + rows.length then
          before.next + (rows.take (node - first)).flatten.length
        else wordAt before.offsets node := by
  induction rows generalizing first before with
  | nil =>
      obtain rfl := Except.ok.inj ok
      refine ⟨rfl, rfl, rfl, id, fun node => ?_⟩
      rw [if_neg]
      rw [List.length_nil]
      omega
  | cons row rows ih =>
      rw [List.zipIdx_cons, List.foldlM_cons] at ok
      obtain ⟨between, written, ok⟩ := bind_eq_ok_iff.mp ok
      obtain ⟨offsets, capacity, next, within⟩ := Draft.of_append written
      replace next : between.next = before.next + row.length := next
      rw [List.length_cons] at room
      have offsetRoom : between.offsets.capacity = before.offsets.capacity := by
        rw [offsets]
        rfl
      obtain ⟨offsets', capacity', next', within', words⟩ := ih ok (by omega)
      refine ⟨offsets'.trans offsetRoom, capacity'.trans capacity, ?_, within' ∘ within, ?_⟩
      · rw [next', next, List.flatten_cons, List.length_append]
        omega
      · intro node
        rw [words node, next, offsets, wordAt_set, List.length_cons]
        rcases Nat.lt_trichotomy node first with below | here | above
        · rw [if_neg (by omega), if_neg (by omega), if_neg (by omega)]
        · subst here
          rw [if_neg (by omega), if_pos ⟨rfl, by omega⟩, if_pos (by omega), Nat.sub_self]
          rfl
        · have later : node - first = node - (first + 1) + 1 := by omega
          by_cases inside : node < first + (rows.length + 1)
          · rw [if_pos (by omega), if_pos (by omega), later, List.take_succ_cons,
              List.flatten_cons, List.length_append]
            omega
          · rw [if_neg (by omega), if_neg (by omega), if_neg (by omega)]

/-- The rows of `nodeCount` nodes begin at the given positions, the last of them ends with the
targets, and every target is a node. -/
structure Begins (g : Graph) (nodeCount : Nat) (starts : Nat → Nat) : Prop where
  capacity : g.offsets.capacity = nodeCount + 1
  begins : ∀ node ≤ nodeCount, g.rowStart node = starts node
  ascending : ∀ node, starts node ≤ starts (node + 1)
  last : starts nodeCount = g.relationshipCount
  within : Within nodeCount g.targets
  unidentified : g.externalIds = none

theorem Begins.nodeCount_eq {g : Graph} {nodeCount : Nat} {starts : Nat → Nat}
    (begins : g.Begins nodeCount starts) : g.nodeCount = nodeCount := by
  rw [Graph.nodeCount, begins.capacity, Nat.add_sub_cancel]

/-- A graph is well formed if its rows begin at ascending positions that end with the targets. -/
theorem Begins.wellFormed {g : Graph} {nodeCount : Nat} {starts : Nat → Nat}
    (begins : g.Begins nodeCount starts) : g.WellFormed := by
  have count := begins.nodeCount_eq
  constructor
  case offsets_pos => rw [begins.capacity]; exact Nat.succ_pos _
  case rows_forward =>
    intro node h
    have stop : g.rowStop node = starts (node + 1) := begins.begins (node + 1) (by omega)
    rw [begins.begins node (by omega), stop]
    exact begins.ascending node
  case last_row => rw [count, begins.begins nodeCount (Nat.le_refl _), begins.last]
  case target_lt => rw [count]; exact begins.within
  case ids_complete =>
    intro ids attached
    rw [begins.unidentified] at attached
    cases attached

/-- A row begins behind all targets of earlier rows. -/
theorem begins_of_ofRows {rows : List (List Nat)} {g : Graph} (ok : ofRows rows = .ok g) :
    g.Begins rows.length fun node => (rows.take node).flatten.length := by
  obtain ⟨draft, written, ok⟩ := bind_eq_ok_iff.mp ok
  obtain rfl := Except.ok.inj ok
  obtain ⟨offsets, targets, next, within, words⟩ :=
    Draft.of_writeRows written (by simp)
  simp only [Nat.zero_add, Nat.zero_le, true_and, Nat.sub_zero] at next words
  refine ⟨offsets, ?_, ?_, ?_, within (within_replicate ?_), rfl⟩
  · intro node h
    show wordAt (draft.offsets.set rows.length draft.next) node = _
    rw [wordAt_set, words node, next, offsets]
    rcases Nat.lt_or_eq_of_le h with inside | rfl
    · rw [if_neg (by omega), if_pos inside]
    · rw [if_pos ⟨rfl, Nat.lt_succ_self _⟩, List.take_length]
  · intro node
    show (rows.take node).flatten.length ≤ (rows.take (node + 1)).flatten.length
    rw [List.take_add_one, List.flatten_append, List.length_append]
    exact Nat.le_add_right _ _
  · show (rows.take rows.length).flatten.length = draft.targets.capacity
    rw [List.take_length, targets]
    rfl
  · intro some
    cases rows with
    | nil => exact absurd some (Nat.lt_irrefl 0)
    | cons row rows => exact Nat.succ_pos _

/-! ### Graphs from pairs -/

theorem addAt_of_lt (words : PagedArray 8 Nat) {index : Nat} (h : index < words.capacity)
    (amount : Nat) : addAt words index amount = .ok (words.modify index (· + amount)) := if_pos h

theorem addAt_eq_ok_iff {words after : PagedArray 8 Nat} {index amount : Nat} :
    addAt words index amount = .ok after ↔
      index < words.capacity ∧ words.modify index (· + amount) = after := by
  unfold addAt
  split
  · next inside => simp [inside]
  · next outside => simp [outside]

theorem countEdge_eq_ok_iff {nodeCount : Nat} {before after : PagedArray 8 Nat} {edge : Nat × Nat} :
    countEdge nodeCount before edge = .ok after ↔ (edge.1 < nodeCount ∧ edge.2 < nodeCount) ∧
      edge.1 + 1 < before.capacity ∧ before.modify (edge.1 + 1) (· + 1) = after := by
  unfold countEdge
  split
  · next inside => simp only [inside, true_and, addAt_eq_ok_iff]
  · next outside => exact iff_of_false nofun fun counted => outside counted.1

/-- Counting the sources refuses pairs with an end that is not a node. -/
theorem of_countEdges {nodeCount : Nat} {edges : List (Nat × Nat)} {before after : PagedArray 8 Nat}
    (ok : edges.foldlM (countEdge nodeCount) before = .ok after) :
    (∀ edge ∈ edges, edge.1 < nodeCount ∧ edge.2 < nodeCount) ∧
      after.capacity = before.capacity ∧ ∀ index < before.capacity,
        wordAt after index = wordAt before index + edges.countP (·.1 + 1 = index) := by
  induction edges generalizing before with
  | nil =>
      obtain rfl := Except.ok.inj ok
      exact ⟨by simp, rfl, fun _ _ => rfl⟩
  | cons edge edges ih =>
      rw [List.foldlM_cons] at ok
      obtain ⟨between, counted, ok⟩ := bind_eq_ok_iff.mp ok
      obtain ⟨inside, -, rfl⟩ := countEdge_eq_ok_iff.mp counted
      obtain ⟨ends, capacity, words⟩ := ih ok
      refine ⟨List.forall_mem_cons.mpr ⟨inside, ends⟩, capacity, fun index h => ?_⟩
      rw [words index h, wordAt_modify before _ _ h, List.countP_cons]
      by_cases here : edge.1 + 1 = index
      · simp only [here, if_true, decide_true]
        omega
      · simp [here]

/-- Pairs with a source below `node + 1` are those with a source below `node` and those of `node`.
-/
theorem countP_lt_succ (edges : List (Nat × Nat)) (node : Nat) :
    edges.countP (·.1 < node + 1) =
      edges.countP (·.1 < node) + edges.countP (·.1 + 1 = node + 1) := by
  induction edges with
  | nil => rfl
  | cons edge edges ih =>
      simp only [List.countP_cons, ih, decide_eq_true_eq]
      split <;> split <;> split <;> omega

/-- While the counts are added up the words in front are positions already and those behind are
counts still. In the end all of them are positions: each row begins behind all pairs with a smaller
source. -/
theorem exists_accumulate {edges : List (Nat × Nat)} {nodeCount remaining node : Nat}
    {counts : PagedArray 8 Nat} (range : node + remaining = nodeCount)
    (capacity : counts.capacity = nodeCount + 1)
    (words : ∀ index ≤ nodeCount, wordAt counts index =
      if index ≤ node then edges.countP (·.1 < index) else edges.countP (·.1 + 1 = index)) :
    ∃ offsets, accumulate remaining node counts = .ok offsets ∧
      offsets.capacity = nodeCount + 1 ∧
      ∀ index ≤ nodeCount, wordAt offsets index = edges.countP (·.1 < index) := by
  induction remaining generalizing node counts with
  | zero =>
      refine ⟨counts, rfl, capacity, fun index h => ?_⟩
      rw [words index h, if_pos (by omega)]
  | succ remaining ih =>
      have here : node < counts.capacity := by omega
      have behind : node + 1 < counts.capacity := by omega
      obtain ⟨offsets, ok, room, starts⟩ := @ih (node + 1)
        (counts.modify (node + 1) (· + wordAt counts node)) (by omega) capacity fun index h => by
          rw [wordAt_modify _ _ _ (by omega), words index h, words node (by omega),
            if_pos (Nat.le_refl node)]
          by_cases next : node + 1 = index
          · subst next
            rw [if_pos rfl, if_neg (by omega), if_pos (Nat.le_refl _), countP_lt_succ, Nat.add_comm]
          · rw [if_neg next]
            by_cases earlier : index ≤ node
            · rw [if_pos earlier, if_pos (by omega)]
            · rw [if_neg earlier, if_neg (by omega)]
      refine ⟨offsets, ?_, room, starts⟩
      rw [accumulate, fetch_of_lt counts here]
      show (addAt counts (node + 1) (wordAt counts node) >>= accumulate remaining (node + 1)) = _
      rw [addAt_of_lt counts behind]
      exact ok

theorem lt_capacity_of_accumulate {remaining node : Nat} {counts offsets : PagedArray 8 Nat}
    (ok : accumulate remaining node counts = .ok offsets) (some : 0 < remaining) :
    node + remaining < counts.capacity := by
  induction remaining generalizing node counts with
  | zero => exact absurd some (Nat.lt_irrefl 0)
  | succ remaining ih =>
      rw [accumulate] at ok
      obtain ⟨before, -, ok⟩ := bind_eq_ok_iff.mp ok
      obtain ⟨between, added, ok⟩ := bind_eq_ok_iff.mp ok
      obtain ⟨inside, rfl⟩ := addAt_eq_ok_iff.mp added
      cases remaining with
      | zero => exact inside
      | succ remaining =>
          have further := ih ok (Nat.succ_pos remaining)
          rw [PagedArray.capacity_modify] at further
          omega

theorem within_placeEdges {nodeCount : Nat} {edges : List (Nat × Nat)}
    (arrays : PagedArray 8 Nat × PagedArray 8 Nat)
    (ends : ∀ edge ∈ edges, edge.2 < nodeCount) (within : Within nodeCount arrays.2) :
    Within nodeCount (edges.foldl placeEdge arrays).2 ∧
      (edges.foldl placeEdge arrays).2.capacity = arrays.2.capacity := by
  induction edges generalizing arrays with
  | nil => exact ⟨within, rfl⟩
  | cons edge edges ih =>
      exact ih _ (fun edge member => ends edge (List.mem_cons_of_mem _ member))
        (within.set _ (ends edge List.mem_cons_self))

/-- Pairs go through three loops: they are counted, the counts are added up, and then the pairs are
placed. There is an offset behind the last node only if the number of offsets has not wrapped. -/
theorem ofEdges_eq_ok {nodeCount : Nat} {edges : List (Nat × Nat)} {g : Graph}
    (ok : ofEdges nodeCount edges = .ok g) :
    nodeCount < Word.top ∧ ∃ counts offsets,
      edges.foldlM (countEdge nodeCount) (.replicate (nodeCount + 1) 0) = .ok counts ∧
      accumulate nodeCount 0 counts = .ok offsets ∧
      g = { offsets
            targets := (edges.foldl placeEdge
              (.ofFn nodeCount fun node _ => wordAt offsets node,
                .replicate edges.length 0)).2 } := by
  obtain ⟨counts, counted, ok⟩ := bind_eq_ok_iff.mp ok
  obtain ⟨offsets, added, ok⟩ := bind_eq_ok_iff.mp ok
  have capacity : counts.capacity = Word.wrap (nodeCount + 1) := (of_countEdges counted).2.1
  have fits : nodeCount + 1 ≤ Word.top := by
    refine Word.wrap_eq_self_iff.mp ?_
    have wrapped : Word.wrap (nodeCount + 1) ≤ nodeCount + 1 := Nat.mod_le _ _
    rcases Nat.eq_zero_or_pos nodeCount with rfl | some
    · rfl
    · have room := lt_capacity_of_accumulate added some
      omega
  rw [Word.wrap_eq_self_iff.mpr fits] at counted
  exact ⟨fits, counts, offsets, counted, added, (Except.ok.inj ok).symm⟩

/-- The offsets of a graph from pairs: each row begins behind all pairs with a smaller source. -/
theorem exists_offsets {nodeCount : Nat} {edges : List (Nat × Nat)} {counts : PagedArray 8 Nat}
    (counted : edges.foldlM (countEdge nodeCount) (.replicate (nodeCount + 1) 0) = .ok counts) :
    ∃ offsets, accumulate nodeCount 0 counts = .ok offsets ∧ offsets.capacity = nodeCount + 1 ∧
      ∀ index ≤ nodeCount, wordAt offsets index = edges.countP (·.1 < index) := by
  obtain ⟨-, capacity, words⟩ := of_countEdges counted
  refine exists_accumulate (Nat.zero_add nodeCount) capacity fun index h => ?_
  rw [words index (Nat.lt_succ_of_le h), wordAt_replicate _ _ (Nat.lt_succ_of_le h), Nat.zero_add]
  split
  · next first =>
      obtain rfl := Nat.le_zero.mp first
      simp
  · rfl

theorem begins_of_ofEdges {nodeCount : Nat} {edges : List (Nat × Nat)} {g : Graph}
    (ok : ofEdges nodeCount edges = .ok g) :
    g.Begins nodeCount fun node => edges.countP (·.1 < node) := by
  obtain ⟨-, counts, offsets, counted, added, rfl⟩ := ofEdges_eq_ok ok
  obtain ⟨ends, -⟩ := of_countEdges counted
  obtain ⟨_, added', room, starts⟩ := exists_offsets counted
  obtain rfl := Except.ok.inj (added.symm.trans added')
  have targets := within_placeEdges
    (.ofFn nodeCount fun node _ => wordAt offsets node, .replicate edges.length 0)
    (fun edge member => (ends edge member).2) (within_replicate fun some => by
      cases edges with
      | nil => exact absurd some (Nat.lt_irrefl 0)
      | cons edge edges => exact Nat.zero_lt_of_lt (ends edge List.mem_cons_self).1)
  constructor
  case capacity => exact room
  case begins => exact starts
  case ascending =>
    intro node
    rw [countP_lt_succ]
    exact Nat.le_add_right _ _
  case last =>
    show edges.countP (·.1 < nodeCount) = _
    rw [List.countP_eq_length.mpr fun edge member => decide_eq_true (ends edge member).1]
    exact targets.2.symm
  case within => exact targets.1
  case unidentified => rfl

/-- Every graph that a constructor accepts is well formed. -/
theorem Built.wellFormed {g : Graph} (built : Built g) : g.WellFormed := by
  induction built with
  | rows ok => exact (begins_of_ofRows ok).wellFormed
  | edges ok => exact (begins_of_ofEdges ok).wellFormed
  | parts ok => exact wellFormed_of_ofParts ok
  | identified _ ok ih =>
      unfold withExternalIds at ok
      split at ok
      · next complete =>
          obtain rfl := Except.ok.inj ok
          refine ⟨ih.offsets_pos, ih.rows_forward, ih.last_row, ih.target_lt, ?_⟩
          intro ids attached
          obtain rfl := Option.mem_some.mp attached
          exact complete
      · cases ok

/-- Parallel relationships from node `0` to node `1`, a self loop at node `3`, and a first target
that belongs to no row. -/
def sample : Graph where
  offsets := packed #[1, 4, 5, 5, 7, 7]
  targets := packed #[4, 1, 1, 2, 2, 3, 4]

theorem built_sample : sample.Built := by
  have ok : ofParts #[1, 4, 5, 5, 7, 7] #[4, 1, 1, 2, 2, 3, 4] = .ok sample := rfl
  exact .parts ok

end GraphAnalytics.Graph
