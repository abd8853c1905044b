import Mathlib.Algebra.Order.BigOperators.Group.List
import Mathlib.Algebra.Order.Ring.Nat
import Mathlib.Data.List.Chain
import Mathlib.Data.List.Nodup
import Mathlib.Data.Set.Insert
import Mathlib.Logic.Relation

/-!
# Depth-first search for a cycle

An iterative walk over successor lists. The path is kept deepest first, each
node with the successors that are left. A node is marked when it is entered and
again when it is left.
-/

set_option autoImplicit false

namespace JaszczurHal.DepthFirst

variable {α : Type}

structure Cycle (r : α → α → Prop) (nodes : List α) : Prop where
  long : 2 ≤ nodes.length
  returns : nodes.head? = nodes.getLast?
  chain : nodes.IsChain r

def Acyclic (r : α → α → Prop) : Prop := ∀ x, ¬Relation.TransGen r x x

theorem cycle_not_acyclic {r : α → α → Prop} {nodes : List α} (h : Cycle r nodes) :
    ¬Acyclic r := by
  intro hacyclic
  obtain ⟨hlong, hreturns, hchain⟩ := h
  cases nodes with
  | nil => simp at hlong
  | cons x rest =>
    cases rest with
    | nil => simp at hlong
    | cons y rest =>
      rw [List.isChain_cons_cons] at hchain
      have hlast : (y :: rest).getLast (List.cons_ne_nil y rest) = x := by
        rw [List.head?_cons, List.getLast?_cons_cons,
          List.getLast?_eq_some_getLast (List.cons_ne_nil y rest)] at hreturns
        exact (Option.some.inj hreturns).symm
      have hback := List.relationReflTransGen_of_exists_isChain_cons rest hchain.2 hlast
      exact hacyclic x (Relation.TransGen.head' hchain.1 hback)

structure Settled (r : α → α → Prop) (S : Set α) : Prop where
  closed : ∀ x ∈ S, ∀ y, r x y → y ∈ S
  acyclic : ∀ x ∈ S, ¬Relation.TransGen r x x

theorem settled_trans {r : α → α → Prop} {S : Set α} (h : Settled r S) {x y : α} (hx : x ∈ S)
    (hxy : Relation.TransGen r x y) : y ∈ S := by
  induction hxy with
  | single hstep => exact h.closed x hx _ hstep
  | tail _ hstep ih => exact h.closed _ ih _ hstep

theorem settled_insert {r : α → α → Prop} {S : Set α} (h : Settled r S) {x : α} (hx : x ∉ S)
    (hsucc : ∀ y, r x y → y ∈ S) : Settled r (insert x S) := by
  constructor
  · intro z hz y hy
    cases hz with
    | inl hsame => exact Or.inr (hsucc y (hsame ▸ hy))
    | inr hin => exact Or.inr (h.closed z hin y hy)
  · intro z hz hcycle
    cases hz with
    | inl hsame =>
      rw [hsame] at hcycle
      obtain ⟨y, hstep, hback⟩ := Relation.TransGen.head'_iff.mp hcycle
      have hy := hsucc y hstep
      cases Relation.reflTransGen_iff_eq_or_transGen.mp hback with
      | inl heq => exact hx (heq ▸ hy)
      | inr htrans => exact hx (settled_trans h hy htrans)
    | inr hin => exact h.acyclic z hin hcycle

inductive Mark where
  | new
  | visiting
  | visited
  deriving DecidableEq

variable [DecidableEq α]

def walk (succ : α → List α) :
    ℕ → (α → Mark) → List (α × List α) → Except (List α) (α → Mark)
  | 0, marks, _ => .ok marks
  | _ + 1, marks, [] => .ok marks
  | fuel + 1, marks, (current, []) :: path =>
    walk succ fuel (Function.update marks current .visited) path
  | fuel + 1, marks, (current, target :: targets) :: path =>
    match marks target with
    | .visited => walk succ fuel marks ((current, targets) :: path)
    | .visiting =>
      .error ((current :: path.map Prod.fst).reverse.dropWhile (· ≠ target) ++ [target])
    | .new =>
      walk succ fuel (Function.update marks target .visiting)
        ((target, succ target) :: (current, targets) :: path)

def search (succ : α → List α) (fuel : ℕ) :
    List α → (α → Mark) → Except (List α) (α → Mark)
  | [], marks => .ok marks
  | root :: roots, marks =>
    if marks root = .visited then search succ fuel roots marks
    else
      match walk succ fuel (Function.update marks root .visiting) [(root, succ root)] with
      | .ok marks => search succ fuel roots marks
      | .error cycle => .error cycle

def Left (succ : α → List α) (marks : α → Mark) : Option α → List (α × List α) → Prop
  | _, [] => True
  | next, (current, targets) :: path =>
    (∀ y ∈ targets, y ∈ succ current) ∧
      (∀ y ∈ succ current, y ∈ targets ∨ marks y = .visited ∨ some y = next) ∧
        Left succ marks (some current) path

omit [DecidableEq α] in
theorem left_marks {succ : α → List α} {marks marks' : α → Mark}
    (hkeep : ∀ y, marks y = .visited → marks' y = .visited) {next : Option α}
    {path : List (α × List α)} (h : Left succ marks next path) : Left succ marks' next path := by
  induction path generalizing next with
  | nil => trivial
  | cons entry path ih =>
    obtain ⟨hsub, hleft, hrest⟩ := h
    constructor
    · exact hsub
    constructor
    · intro y hy
      cases hleft y hy with
      | inl hpending => exact Or.inl hpending
      | inr hother => exact Or.inr (hother.imp_left (hkeep y))
    · exact ih hrest

structure Walking (succ : α → List α) (marks : α → Mark) (path : List (α × List α)) :
    Prop where
  marked : ∀ x, marks x = .visiting ↔ x ∈ path.map Prod.fst
  nodup : (path.map Prod.fst).Nodup
  chain : (path.map Prod.fst).IsChain fun y x => y ∈ succ x
  left : Left succ marks none path
  settled : Settled (fun x y => y ∈ succ x) {x | marks x = .visited}

section Steps

variable {succ : α → List α} {marks : α → Mark} {current target : α} {targets : List α}
  {path : List (α × List α)}

theorem walking_start (h : Walking succ marks []) {root : α} (hroot : marks root ≠ .visited) :
    Walking succ (Function.update marks root .visiting) [(root, succ root)] := by
  have hvisited : ∀ y, Function.update marks root .visiting y = .visited ↔ marks y = .visited := by
    intro y
    by_cases hy : y = root
    · simp [hy, hroot]
    · simp [hy]
  constructor
  · intro y
    by_cases hy : y = root
    · simp [hy]
    · simp [hy, h.marked y]
  · simp
  · simp
  · constructor
    · exact fun y hy => hy
    constructor
    · exact fun y hy => Or.inl hy
    · trivial
  · simpa only [hvisited] using h.settled

theorem walking_leave (h : Walking succ marks ((current, []) :: path)) :
    Walking succ (Function.update marks current .visited) path := by
  have hcurrent : marks current = .visiting := (h.marked current).mpr (by simp)
  have hfresh : current ∉ path.map Prod.fst := (List.nodup_cons.mp h.nodup).1
  obtain ⟨_, hsucc, hleft⟩ := h.left
  constructor
  · intro y
    by_cases hy : y = current
    · simp only [hy, Function.update_self, hfresh, iff_false]
      decide
    · have hmarked := h.marked y
      simp only [List.map_cons, List.mem_cons, hy, false_or] at hmarked
      rw [Function.update_of_ne hy, hmarked]
  · exact (List.nodup_cons.mp h.nodup).2
  · exact h.chain.tail
  · -- the node that is left settles for the node below it
    cases path with
    | nil => trivial
    | cons entry path =>
      obtain ⟨hsub, hbelow, hrest⟩ := hleft
      constructor
      · exact hsub
      constructor
      · intro y hy
        by_cases hcur : y = current
        · exact Or.inr (Or.inl (by simp [hcur]))
        · cases hbelow y hy with
          | inl hpending => exact Or.inl hpending
          | inr hother =>
            cases hother with
            | inl hvisited => exact Or.inr (Or.inl (by simp [hcur, hvisited]))
            | inr hnext => exact absurd (Option.some.inj hnext) hcur
      · apply left_marks _ hrest
        intro z hz
        by_cases hcur : z = current
        · simp [hcur]
        · simp [hcur, hz]
  · have hset : {x | Function.update marks current .visited x = .visited} =
        insert current {x | marks x = .visited} := by
      ext z
      rw [Set.mem_insert_iff, Set.mem_ofPred_eq, Set.mem_ofPred_eq]
      by_cases hz : z = current
      · simp [hz]
      · simp [hz]
    rw [hset]
    apply settled_insert h.settled
    · rw [Set.mem_ofPred_eq, hcurrent]
      decide
    · intro y hy
      cases hsucc y hy with
      | inl hnone => cases hnone
      | inr hother => exact hother.resolve_right (by simp)

omit [DecidableEq α] in
theorem walking_skip (h : Walking succ marks ((current, target :: targets) :: path))
    (hvisited : marks target = .visited) : Walking succ marks ((current, targets) :: path) := by
  obtain ⟨hsub, hsucc, hleft⟩ := h.left
  constructor
  · exact h.marked
  · exact h.nodup
  · exact h.chain
  · constructor
    · exact fun y hy => hsub y (List.mem_cons_of_mem _ hy)
    constructor
    · intro y hy
      cases hsucc y hy with
      | inl hpending =>
        cases List.mem_cons.mp hpending with
        | inl hsame => exact Or.inr (Or.inl (hsame ▸ hvisited))
        | inr hlater => exact Or.inl hlater
      | inr hother => exact Or.inr hother
    · exact hleft
  · exact h.settled

theorem walking_enter (h : Walking succ marks ((current, target :: targets) :: path))
    (hnew : marks target = .new) :
    Walking succ (Function.update marks target .visiting)
      ((target, succ target) :: (current, targets) :: path) := by
  obtain ⟨hsub, hsucc, hleft⟩ := h.left
  have hvisited : ∀ y, Function.update marks target .visiting y = .visited ↔
      marks y = .visited := by
    intro y
    by_cases hy : y = target
    · simp [hy, hnew]
    · simp [hy]
  have hfresh : target ∉ ((current, targets) :: path).map Prod.fst := by
    intro hin
    have hmark := (h.marked target).mpr hin
    rw [hnew] at hmark
    cases hmark
  constructor
  · intro y
    by_cases hy : y = target
    · simp [hy]
    · have hmarked := h.marked y
      simp only [List.map_cons, List.mem_cons] at hmarked
      simp [hy, hmarked]
  · exact List.nodup_cons.mpr ⟨hfresh, h.nodup⟩
  · have hedge : target ∈ succ current := hsub target (List.mem_cons_self ..)
    exact List.isChain_cons_cons.mpr ⟨hedge, h.chain⟩
  · constructor
    · exact fun y hy => hy
    constructor
    · exact fun y hy => Or.inl hy
    constructor
    · exact fun y hy => hsub y (List.mem_cons_of_mem _ hy)
    constructor
    · intro y hy
      cases hsucc y hy with
      | inl hpending =>
        cases List.mem_cons.mp hpending with
        | inl hsame => exact Or.inr (Or.inr (congrArg some hsame))
        | inr hlater => exact Or.inl hlater
      | inr hother =>
        cases hother with
        | inl hdone => exact Or.inr (Or.inl ((hvisited y).mpr hdone))
        | inr hnone => cases hnone
    · exact left_marks (fun z hz => (hvisited z).mpr hz) hleft
  · simpa only [hvisited] using h.settled

theorem walking_cycle (h : Walking succ marks ((current, target :: targets) :: path))
    (hvisiting : marks target = .visiting) :
    Cycle (fun x y => y ∈ succ x)
      ((current :: path.map Prod.fst).reverse.dropWhile (· ≠ target) ++ [target]) := by
  have hedge : target ∈ succ current := h.left.1 target (List.mem_cons_self ..)
  have hin : target ∈ (current :: path.map Prod.fst).reverse := by
    rw [List.mem_reverse]
    exact (h.marked target).mp hvisiting
  have hchain : (current :: path.map Prod.fst).reverse.IsChain fun x y => y ∈ succ x := by
    rw [List.isChain_reverse]
    exact h.chain
  obtain ⟨front, back, hsplit, hfront⟩ := List.eq_append_cons_of_mem hin
  have hdrop : (current :: path.map Prod.fst).reverse.dropWhile (· ≠ target) = target :: back := by
    rw [hsplit, List.dropWhile_append_of_pos]
    · simp
    · intro x hx
      have hne : x ≠ target := fun hsame => hfront (hsame ▸ hx)
      simpa using hne
  have hlast : (target :: back).getLast? = some current := by
    have hends := congrArg List.getLast? hsplit
    rw [List.getLast?_reverse, List.head?_cons, List.getLast?_append] at hends
    rw [List.getLast?_eq_some_getLast (List.cons_ne_nil target back)] at hends ⊢
    simpa using hends.symm
  rw [hdrop]
  constructor
  · simp
  · rw [List.cons_append, List.head?_cons, ← List.cons_append, List.getLast?_concat]
  · rw [List.isChain_append]
    constructor
    · rw [hsplit] at hchain
      exact (List.isChain_append.mp hchain).2.1
    constructor
    · simp
    · intro x hx y hy
      rw [hlast, Option.mem_some_iff] at hx
      have hy : target = y := by simpa using hy
      rw [← hx, ← hy]
      exact hedge

end Steps

/-- The turns that are left: each successor on the path, each node on the path,
and both for each node that is new. -/
def turns (succ : α → List α) (nodes : List α) (marks : α → Mark)
    (path : List (α × List α)) : ℕ :=
  (path.map fun entry => 1 + entry.2.length).sum +
    (nodes.map fun x => if marks x = .new then 1 + (succ x).length else 0).sum

theorem turns_mark (succ : α → List α) (nodes : List α) (marks : α → Mark) (target : α)
    (mark : Mark) (hmark : mark ≠ .new) :
    (nodes.map fun x => if Function.update marks target mark x = .new then 1 + (succ x).length
      else 0).sum ≤
    (nodes.map fun x => if marks x = .new then 1 + (succ x).length else 0).sum := by
  apply List.sum_le_sum
  intro x _
  by_cases hx : x = target
  · simp [hx, hmark]
  · simp [hx]

theorem turns_enter (succ : α → List α) {nodes : List α} {marks : α → Mark} {target : α}
    (hin : target ∈ nodes) (hnew : marks target = .new) :
    (nodes.map fun x => if Function.update marks target .visiting x = .new then
      1 + (succ x).length else 0).sum + (1 + (succ target).length) ≤
    (nodes.map fun x => if marks x = .new then 1 + (succ x).length else 0).sum := by
  induction nodes with
  | nil => cases hin
  | cons x nodes ih =>
    simp only [List.map_cons, List.sum_cons]
    by_cases hx : x = target
    · have hrest := turns_mark succ nodes marks target .visiting (by decide)
      rw [hx, Function.update_self, if_neg (by decide), if_pos hnew]
      omega
    · have hrest := ih ((List.mem_cons.mp hin).resolve_left (Ne.symm hx))
      rw [Function.update_of_ne hx]
      omega

section Runs

variable {succ : α → List α} {nodes : List α}

/-- With enough turns the walk settles every node of the path or finds a cycle. -/
theorem walk_exact (hnodes : ∀ x, ∀ y ∈ succ x, x ∈ nodes ∧ y ∈ nodes) (fuel : ℕ)
    (marks : α → Mark) (path : List (α × List α)) (h : Walking succ marks path)
    (hfuel : turns succ nodes marks path < fuel) :
    (∃ cycle, walk succ fuel marks path = .error cycle ∧ Cycle (fun x y => y ∈ succ x) cycle) ∨
    (∃ marks', walk succ fuel marks path = .ok marks' ∧ Walking succ marks' [] ∧
      ∀ x, marks x = .visited ∨ x ∈ path.map Prod.fst → marks' x = .visited) := by
  induction fuel generalizing marks path with
  | zero => omega
  | succ fuel ih =>
    cases path with
    | nil =>
      right
      exact ⟨marks, rfl, h, fun x hx => hx.resolve_right (by simp)⟩
    | cons entry path =>
      obtain ⟨current, targets⟩ := entry
      cases targets with
      | nil =>
        have hmark := turns_mark succ nodes marks current .visited (by decide)
        have hrest := ih _ path (walking_leave h) (by
          simp only [turns, List.map_cons, List.sum_cons, List.length_nil] at hfuel ⊢
          omega)
        cases hrest with
        | inl hcycle => exact Or.inl hcycle
        | inr hdone =>
          right
          obtain ⟨marks', hwalk, hwalking, hvisited⟩ := hdone
          refine ⟨marks', hwalk, hwalking, ?_⟩
          intro x hx
          apply hvisited
          by_cases hsame : x = current
          · exact Or.inl (by simp [hsame])
          · cases hx with
            | inl hold => exact Or.inl (by simp [hsame, hold])
            | inr hpath => exact Or.inr ((List.mem_cons.mp hpath).resolve_left hsame)
      | cons target targets =>
        have hedge : target ∈ succ current := h.left.1 target (List.mem_cons_self ..)
        cases hmark : marks target with
        | visited =>
          simp only [walk, hmark]
          apply ih _ _ (walking_skip h hmark)
          simp only [turns, List.map_cons, List.sum_cons, List.length_cons] at hfuel ⊢
          omega
        | visiting =>
          left
          simp only [walk, hmark]
          exact ⟨_, rfl, walking_cycle h hmark⟩
        | new =>
          simp only [walk, hmark]
          have hturns := turns_enter succ (hnodes current target hedge).2 hmark
          have hrest := ih _ _ (walking_enter h hmark) (by
            simp only [turns, List.map_cons, List.sum_cons, List.length_cons] at hfuel ⊢
            omega)
          cases hrest with
          | inl hcycle => exact Or.inl hcycle
          | inr hdone =>
            right
            obtain ⟨marks', hwalk, hwalking, hvisited⟩ := hdone
            refine ⟨marks', hwalk, hwalking, ?_⟩
            intro x hx
            apply hvisited
            cases hx with
            | inl hold =>
              have hne : x ≠ target := by
                intro hsame
                rw [hsame, hmark] at hold
                cases hold
              exact Or.inl (by simp [hne, hold])
            | inr hpath => exact Or.inr (List.mem_cons_of_mem _ hpath)

theorem walk_settled (hnodes : ∀ x, ∀ y ∈ succ x, x ∈ nodes ∧ y ∈ nodes) (fuel more : ℕ)
    (marks : α → Mark) (path : List (α × List α)) (h : Walking succ marks path)
    (hfuel : turns succ nodes marks path < fuel) (hmore : fuel ≤ more) :
    walk succ more marks path = walk succ fuel marks path := by
  induction fuel generalizing more marks path with
  | zero => omega
  | succ fuel ih =>
    obtain ⟨more, rfl⟩ := Nat.exists_eq_add_of_le' (show 1 ≤ more by omega)
    have hmore : fuel ≤ more := by omega
    cases path with
    | nil => rfl
    | cons entry path =>
      obtain ⟨current, targets⟩ := entry
      cases targets with
      | nil =>
        have hmark := turns_mark succ nodes marks current .visited (by decide)
        apply ih _ _ path (walking_leave h) _ hmore
        simp only [turns, List.map_cons, List.sum_cons, List.length_nil] at hfuel ⊢
        omega
      | cons target targets =>
        have hedge : target ∈ succ current := h.left.1 target (List.mem_cons_self ..)
        cases hmark : marks target with
        | visited =>
          simp only [walk, hmark]
          apply ih _ _ _ (walking_skip h hmark) _ hmore
          simp only [turns, List.map_cons, List.sum_cons, List.length_cons] at hfuel ⊢
          omega
        | visiting => simp only [walk, hmark]
        | new =>
          simp only [walk, hmark]
          have hturns := turns_enter succ (hnodes current target hedge).2 hmark
          apply ih _ _ _ (walking_enter h hmark) _ hmore
          simp only [turns, List.map_cons, List.sum_cons, List.length_cons] at hfuel ⊢
          omega

theorem turns_start (succ : α → List α) (marks : α → Mark) (root : α) (hroot : root ∈ nodes)
    (hmark : marks root ≠ .visited) (hvisiting : marks root ≠ .visiting) :
    turns succ nodes (Function.update marks root .visiting) [(root, succ root)] ≤
      (nodes.map fun x => 1 + (succ x).length).sum := by
  have hnew : marks root = .new := by
    cases hall : marks root with
    | new => rfl
    | visiting => exact absurd hall hvisiting
    | visited => exact absurd hall hmark
  have henter := turns_enter succ hroot hnew
  have hall : (nodes.map fun x => if marks x = .new then 1 + (succ x).length else 0).sum ≤
      (nodes.map fun x => 1 + (succ x).length).sum := by
    apply List.sum_le_sum
    intro x _
    split
    · exact le_rfl
    · exact Nat.zero_le _
  simp only [turns, List.map_cons, List.map_nil, List.sum_cons, List.sum_nil]
  omega

omit [DecidableEq α] in
theorem walking_unmarked (marks : α → Mark) (h : Walking succ marks []) (x : α) :
    marks x ≠ .visiting := by
  intro hx
  simpa using (h.marked x).mp hx

theorem search_run (hnodes : ∀ x, ∀ y ∈ succ x, x ∈ nodes ∧ y ∈ nodes) (fuel : ℕ)
    (hfuel : (nodes.map fun x => 1 + (succ x).length).sum < fuel) (roots : List α)
    (hroots : ∀ x ∈ roots, x ∈ nodes) (marks : α → Mark) (h : Walking succ marks []) :
    (∃ cycle, search succ fuel roots marks = .error cycle ∧
      Cycle (fun x y => y ∈ succ x) cycle) ∨
    (∃ marks', search succ fuel roots marks = .ok marks' ∧ Walking succ marks' [] ∧
      ∀ x, marks x = .visited ∨ x ∈ roots → marks' x = .visited) := by
  induction roots generalizing marks with
  | nil =>
    right
    exact ⟨marks, rfl, h, fun x hx => hx.resolve_right (by simp)⟩
  | cons root roots ih =>
    have hlater : ∀ x ∈ roots, x ∈ nodes := fun x hx => hroots x (List.mem_cons_of_mem _ hx)
    by_cases hmark : marks root = .visited
    · simp only [search, if_pos hmark]
      cases ih hlater marks h with
      | inl hcycle => exact Or.inl hcycle
      | inr hdone =>
        right
        obtain ⟨marks', hsearch, hwalking, hvisited⟩ := hdone
        refine ⟨marks', hsearch, hwalking, ?_⟩
        intro x hx
        apply hvisited
        cases hx with
        | inl hold => exact Or.inl hold
        | inr hin =>
          cases List.mem_cons.mp hin with
          | inl hsame => exact Or.inl (hsame ▸ hmark)
          | inr hlater => exact Or.inr hlater
    · have hturns := turns_start succ marks root (hroots root (List.mem_cons_self ..)) hmark
        (walking_unmarked marks h root)
      have hwalk := walk_exact hnodes fuel _ _ (walking_start h hmark) (by omega)
      simp only [search, if_neg hmark]
      cases hwalk with
      | inl hcycle =>
        obtain ⟨cycle, herror, hcycle⟩ := hcycle
        left
        exact ⟨cycle, by rw [herror], hcycle⟩
      | inr hdone =>
        obtain ⟨first, hfirst, hwalking, hkept⟩ := hdone
        rw [hfirst]
        cases ih hlater first hwalking with
        | inl hcycle => exact Or.inl hcycle
        | inr hrest =>
          right
          obtain ⟨marks', hsearch, hended, hvisited⟩ := hrest
          refine ⟨marks', hsearch, hended, ?_⟩
          intro x hx
          apply hvisited
          by_cases hsame : x = root
          · exact Or.inl (hkept x (Or.inr (by simp [hsame])))
          · cases hx with
            | inl hold => exact Or.inl (hkept x (Or.inl (by simp [hsame, hold])))
            | inr hin => exact Or.inr ((List.mem_cons.mp hin).resolve_left hsame)

theorem search_settled (hnodes : ∀ x, ∀ y ∈ succ x, x ∈ nodes ∧ y ∈ nodes) (fuel more : ℕ)
    (hfuel : (nodes.map fun x => 1 + (succ x).length).sum < fuel) (hmore : fuel ≤ more)
    (roots : List α) (hroots : ∀ x ∈ roots, x ∈ nodes) (marks : α → Mark)
    (h : Walking succ marks []) :
    search succ more roots marks = search succ fuel roots marks := by
  induction roots generalizing marks with
  | nil => rfl
  | cons root roots ih =>
    have hlater : ∀ x ∈ roots, x ∈ nodes := fun x hx => hroots x (List.mem_cons_of_mem _ hx)
    by_cases hmark : marks root = .visited
    · simp only [search, if_pos hmark]
      exact ih hlater marks h
    · have hturns := turns_start succ marks root (hroots root (List.mem_cons_self ..)) hmark
        (walking_unmarked marks h root)
      have hstart := walking_start h hmark
      have hsame := walk_settled hnodes fuel more _ _ hstart (by omega) hmore
      simp only [search, if_neg hmark, hsame]
      cases walk_exact hnodes fuel _ _ hstart (by omega) with
      | inl hcycle =>
        obtain ⟨cycle, herror, _⟩ := hcycle
        rw [herror]
      | inr hdone =>
        obtain ⟨first, hfirst, hwalking, _⟩ := hdone
        rw [hfirst]
        exact ih hlater first hwalking

omit [DecidableEq α] in
theorem walking_new : Walking succ (fun _ => .new) [] := by
  constructor
  · simp
  · simp
  · simp
  · trivial
  · constructor
    · intro x hx
      cases hx
    · intro x hx
      cases hx

/-- The search reports a cycle exactly when there is one. -/
theorem search_exact (hnodes : ∀ x, ∀ y ∈ succ x, x ∈ nodes ∧ y ∈ nodes) (fuel : ℕ)
    (hfuel : (nodes.map fun x => 1 + (succ x).length).sum < fuel) :
    (∃ cycle, search succ fuel nodes (fun _ => .new) = .error cycle ∧
      Cycle (fun x y => y ∈ succ x) cycle) ∨
    (∃ marks, search succ fuel nodes (fun _ => .new) = .ok marks ∧
      Acyclic fun x y => y ∈ succ x) := by
  cases search_run hnodes fuel hfuel nodes (fun _ hx => hx) _ walking_new with
  | inl hcycle => exact Or.inl hcycle
  | inr hdone =>
    right
    obtain ⟨marks, hsearch, hwalking, hvisited⟩ := hdone
    refine ⟨marks, hsearch, ?_⟩
    intro x hcycle
    obtain ⟨y, hstep, _⟩ := Relation.TransGen.head'_iff.mp hcycle
    have hx := hvisited x (Or.inr (hnodes x y hstep).1)
    exact hwalking.settled.acyclic x hx hcycle

end Runs

end JaszczurHal.DepthFirst
