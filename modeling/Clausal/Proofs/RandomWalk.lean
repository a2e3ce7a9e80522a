import Mathlib.Data.List.Chain
import Clausal.Proofs.Satisfaction
import Clausal.Random
import Clausal.Search.RandomWalk

/-! # The random walk stops at the first model

Whatever is drawn, a walk goes on until it comes to a model or its flips are used up.  Probing
flips leaves no trace (`foldl_probe`), so every position of the walk gives values to the
variables of the formula and to no others.  From such a position a step finds a model or turns
round one variable of a false clause, which makes that clause true (`step_moves`).  Of the variables
of a clause, the greedy choice is the first that leaves the fewest clauses unsatisfied
(`greedyPick_eq_first_fewest`).

`visited` lists the positions that a walk comes to.  By induction over the flips to spare
(`walk_course`), all of them but the last are no models, and the walk ends at the last one.  The
main statement is `visited_decides`: the verdict is the first model among the positions, and the
walk gives up exactly when its flips are used up without one.

What the last look at a stopped walk finds, one more step would have found
(`step_of_isSatisfiedBy`).  So a walk that found a model takes the same course when it may go on
for longer (`walk_of_le`), and `solve_finds_with_more_flips` says this of the whole search. -/

namespace Clausal

namespace Assignment

variable {s : Assignment} {k l : Literal} {v w : Var}

/-! ### Flips -/

theorem flip_of_mem (h : k ∈ s) : s.flip k.var = s.assign (-k) := by
  have hk : s.value? k.var = some k.positive := value?_eq_some.mpr h
  unfold flip
  rw [hk]
  rfl

theorem flip_of_open (h : s.isAssigned v = false) : s.flip v = s := by
  rw [isAssigned, Option.isSome_eq_false_iff, Option.isNone_iff_eq_none] at h
  unfold flip
  rw [h]

/-- A flip takes the literals of its variable for their complements. -/
theorem mem_flip : l ∈ s.flip v ↔ if l.var = v then -l ∈ s else l ∈ s := by
  cases hv : s.isAssigned v with
  | false =>
      rw [flip_of_open hv]
      split
      · next hlv =>
          subst hlv
          have hneg : (-l).var = l.var := rfl
          rw [← hneg] at hv
          exact iff_of_false (not_mem_of_isAssigned hv) (not_mem_of_isAssigned hv)
      · rfl
  | true =>
      obtain ⟨k, hk, rfl⟩ := isAssigned_iff.mp hv
      rw [flip_of_mem hk, mem_assign, Literal.neg_neg]
      split
      · next hlk =>
          rcases Literal.eq_or_eq_neg hlk with rfl | rfl
          · simp [neg_not_mem hk]
          · simp [hk]
      · next hlk =>
          have hne : ∀ m : Literal, m.var = k.var → l ≠ m := by
            rintro m hm rfl
            exact hlk hm
          simp [hne (-k) rfl, hne k rfl]

@[simp]
theorem flip_flip (s : Assignment) (v : Var) : (s.flip v).flip v = s := by
  refine ext fun l => ?_
  by_cases hl : l.var = v <;> simp [mem_flip, hl]

theorem value?_flip_of_ne (h : w ≠ v) : (s.flip v).value? w = s.value? w := by
  apply Option.ext
  intro b
  rw [value?_eq_some, value?_eq_some, mem_flip, if_neg h]

theorem value?_flip_self (h : k ∈ s) : (s.flip k.var).value? k.var = some !k.positive := by
  rw [value?_eq_some, flip_of_mem h]
  exact mem_assign_self s (-k)

@[simp]
theorem isAssigned_flip : (s.flip v).isAssigned w = s.isAssigned w := by
  rw [Bool.eq_iff_iff, isAssigned_iff, isAssigned_iff]
  constructor
  · rintro ⟨l, hl, rfl⟩
    rw [mem_flip] at hl
    split at hl
    · exact ⟨-l, hl, rfl⟩
    · exact ⟨l, hl, rfl⟩
  · rintro ⟨l, hl, rfl⟩
    by_cases hv : l.var = v
    · refine ⟨-l, ?_, rfl⟩
      rw [mem_flip, if_pos (by exact hv), Literal.neg_neg]
      exact hl
    · refine ⟨l, ?_, rfl⟩
      rwa [mem_flip, if_neg hv]

end Assignment

namespace RandomWalk

open Formula

variable {σ : Type} {F : Formula} {s t : Assignment} {c : Clause} {v : Var}

/-! ### The greedy choice -/

/-- How many clauses a flip of `v` leaves unsatisfied. -/
def cost (F : Formula) (s : Assignment) (v : Var) : Nat := (unsatisfied F (s.flip v)).length

/-- The first of the variables whose flip costs least. -/
structure Best.IsFirst (F : Formula) (s : Assignment) (vs : List Var) (b : Best) : Prop where
  count_eq : b.count = cost F s b.var
  exists_append : ∃ before after, vs = before ++ b.var :: after ∧
    (∀ w ∈ before, b.count < cost F s w) ∧ ∀ w ∈ after, b.count ≤ cost F s w

/-- What probing variables keeps: the best of them, if there are any. -/
inductive Probed (F : Formula) (s : Assignment) : List Var → Option Best → Prop
  | nothing : Probed F s [] none
  | best {vs : List Var} {b : Best} (h : b.IsFirst F s vs) : Probed F s vs (some b)

theorem Best.IsFirst.keep {vs : List Var} {b : Best} (h : b.IsFirst F s vs)
    (hv : b.count ≤ cost F s v) : b.IsFirst F s (vs ++ [v]) := by
  obtain ⟨before, after, rfl, hbefore, hafter⟩ := h.exists_append
  refine ⟨h.count_eq, before, after ++ [v], by simp, hbefore, fun w hw => ?_⟩
  rcases List.mem_append.mp hw with hw | hw
  · exact hafter w hw
  · rwa [List.mem_singleton.mp hw]

theorem Best.IsFirst.replace {vs : List Var} {b : Best} (h : b.IsFirst F s vs)
    (hv : cost F s v < b.count) : (Best.mk v (cost F s v)).IsFirst F s (vs ++ [v]) := by
  obtain ⟨before, after, rfl, hbefore, hafter⟩ := h.exists_append
  refine ⟨rfl, before ++ b.var :: after, [], rfl, fun w hw => ?_, fun w hw => nomatch hw⟩
  have hcount := h.count_eq
  rcases List.mem_append.mp hw with hw | hw
  · have := hbefore w hw
    dsimp only
    omega
  · rcases List.mem_cons.mp hw with rfl | hw
    · dsimp only
      omega
    · have := hafter w hw
      dsimp only
      omega

/-- Probing a variable turns it round twice, so the assignment is the same afterwards. -/
theorem probe_spec {vs : List Var} {b? : Option Best} (h : Probed F s vs b?) (v : Var) :
    ∃ b : Best, probe F (b?, s) v = (some b, s) ∧ b.IsFirst F s (vs ++ [v]) := by
  have hprobe : probe F (b?, s) v = (_, (s.flip v).flip v) := rfl
  rw [Assignment.flip_flip] at hprobe
  refine ⟨_, hprobe, ?_⟩
  cases h with
  | nothing => exact ⟨rfl, [], [], rfl, by simp, by simp⟩
  | @best _ b h =>
      dsimp only
      split
      · next hlt => exact h.replace hlt
      · next hge => exact h.keep (Nat.le_of_not_lt hge)

theorem foldl_probe (F : Formula) (s : Assignment) (vs : List Var) :
    ∃ b?, vs.foldl (probe F) (none, s) = (b?, s) ∧ Probed F s vs b? := by
  -- the list is taken from its end, as the best of what was probed before is needed
  induction vs using List.reverseRecOn with
  | nil => exact ⟨none, rfl, .nothing⟩
  | append_singleton vs v ih =>
      obtain ⟨b?, heq, hb⟩ := ih
      obtain ⟨b, hprobe, hfirst⟩ := probe_spec hb v
      refine ⟨some b, ?_, .best hfirst⟩
      rw [List.foldl_append, heq]
      exact hprobe

/-- From a clause with literals, the greedy choice is the first variable whose flip costs least,
and it leaves the assignment as it was. -/
theorem greedyPick_spec (F : Formula) (s : Assignment) (hc : c ≠ ∅) :
    ∃ b : Best, greedyPick F s c = (some b.var, s) ∧
      b.IsFirst F s (c.toList.map Literal.var) := by
  obtain ⟨b?, heq, hb⟩ := foldl_probe F s (c.toList.map Literal.var)
  unfold greedyPick
  rw [heq]
  generalize hvs : c.toList.map Literal.var = vs at hb
  cases hb with
  | nothing =>
      have hnil : c.toList = [] := List.map_eq_nil_iff.mp hvs
      exact absurd (Clause.toList_eq_nil.mp hnil) hc
  | @best _ b h => exact ⟨b, rfl, h⟩

theorem Best.IsFirst.mem {vs : List Var} {b : Best} (h : b.IsFirst F s vs) : b.var ∈ vs := by
  obtain ⟨before, after, rfl, -, -⟩ := h.exists_append
  simp

/-- The second assignment is the first one with the value of `v` turned round. -/
structure TurnsRound (v : Var) (s t : Assignment) : Prop where
  value?_self : ∃ b, s.value? v = some b ∧ t.value? v = some !b
  value?_of_ne : ∀ w, w ≠ v → t.value? w = s.value? w

/-- With the value of `v` turned round, `n` clauses are not satisfied. -/
def LeavesUnsatisfied (F : Formula) (s : Assignment) (v : Var) (n : Nat) : Prop :=
  ∃ t, TurnsRound v s t ∧ (F.clauses.filter fun c => c.eval t ≠ some true).length = n

theorem turnsRound_flip (h : s.isAssigned v = true) : TurnsRound v s (s.flip v) := by
  obtain ⟨l, hl, rfl⟩ := Assignment.isAssigned_iff.mp h
  refine ⟨⟨l.positive, Assignment.value?_eq_some.mpr hl, Assignment.value?_flip_self hl⟩, ?_⟩
  exact fun w hw => Assignment.value?_flip_of_ne hw

theorem leavesUnsatisfied_cost (F : Formula) (h : s.isAssigned v = true) :
    LeavesUnsatisfied F s v (cost F s v) := by
  refine ⟨s.flip v, turnsRound_flip h, ?_⟩
  rw [cost, unsatisfied]
  refine congrArg List.length (List.filter_congr fun c _ => ?_)
  rw [decide_not, Clause.isSatisfiedBy, beq_eq_decide]

/-- The greedy choice leaves the assignment as it was.  It is the variable of a literal whose flip
leaves the fewest clauses unsatisfied, and every literal before it leaves more. -/
theorem greedyPick_eq_first_fewest (hc : c ≠ ∅) (hs : ∀ v ∈ c.vars, s.isAssigned v = true) :
    ∃ before l after n, c.toList = before ++ l :: after ∧ greedyPick F s c = (some l.var, s) ∧
      LeavesUnsatisfied F s l.var n ∧ (∀ k ∈ before, ∃ m, n < m ∧ LeavesUnsatisfied F s k.var m) ∧
      ∀ k ∈ after, ∃ m, n ≤ m ∧ LeavesUnsatisfied F s k.var m := by
  obtain ⟨b, hpick, hfirst⟩ := greedyPick_spec F s hc
  obtain ⟨us, ws, heq, hus, hws⟩ := hfirst.exists_append
  obtain ⟨before, rest, hlist, rfl, hrest⟩ := List.map_eq_append_iff.mp heq
  obtain ⟨l, after, rfl, hl, rfl⟩ := List.map_eq_cons_iff.mp hrest
  have hcost : ∀ k ∈ c, LeavesUnsatisfied F s k.var (cost F s k.var) := fun k hk =>
    leavesUnsatisfied_cost F (hs k.var (Clause.mem_vars.mpr ⟨k, hk, rfl⟩))
  have hmem : ∀ k, k ∈ before ∨ k = l ∨ k ∈ after → k ∈ c := by
    intro k hk
    rw [← Clause.mem_toList, hlist]
    simpa using hk
  rw [← hl] at hpick
  refine ⟨before, l, after, b.count, hlist, hpick, ?_, fun k hk => ?_, fun k hk => ?_⟩
  · rw [hfirst.count_eq, ← hl]
    exact hcost l (hmem l (.inr (.inl rfl)))
  · exact ⟨_, hus k.var (List.mem_map_of_mem hk), hcost k (hmem k (.inl hk))⟩
  · exact ⟨_, hws k.var (List.mem_map_of_mem hk), hcost k (hmem k (.inr (.inr hk)))⟩

/-- Of `¬x1 ∨ x2`, turning `x2` round satisfies everything and turning `x1` round does not. -/
theorem greedyPick_eq_first_fewest_of_three :
    let u : Var := ⟨1, by decide⟩
    let v : Var := ⟨2, by decide⟩
    let w : Var := ⟨3, by decide⟩
    let F : Formula :=
      ⟨[.ofList [.pos u, .pos v], .ofList [.pos u, .pos w], .ofList [.pos v, .neg w]]⟩
    let s := (((∅ : Assignment).assign (.pos u)).assign (.neg v)).assign (.pos w)
    let c : Clause := .ofList [.neg u, .pos v]
    c ≠ ∅ ∧ (∀ x ∈ c.vars.toList, s.isAssigned x = true) ∧ greedyPick F s c = (some v, s) ∧
      ∃ before l after n, c.toList = before ++ l :: after ∧ greedyPick F s c = (some l.var, s) ∧
        LeavesUnsatisfied F s l.var n ∧ (∀ k ∈ before, ∃ m, n < m ∧ LeavesUnsatisfied F s k.var m) ∧
        ∀ k ∈ after, ∃ m, n ≤ m ∧ LeavesUnsatisfied F s k.var m := by
  intro u v w F s c
  have hc : c ≠ ∅ := by decide
  have hs : ∀ x ∈ c.vars.toList, s.isAssigned x = true := by decide
  exact ⟨hc, hs, by decide, greedyPick_eq_first_fewest hc hs⟩

/-! ### Draws -/

section Draws

variable [RandomSource σ]

theorem draw_eq_ok {α : Type} {xs : List α} (h : xs ≠ []) (g : σ) :
    ∃ x ∈ xs, ∃ g', draw xs g = .ok (x, g') := by
  have hpos : 0 < xs.length := List.length_pos_of_ne_nil h
  unfold draw
  rw [dif_pos hpos]
  exact ⟨_, List.getElem_mem _, _, rfl⟩

/-- Tossing coins for open variables gives a value to each of them and to no others. -/
theorem toss_eq_ok {vs : List Var} {s : Assignment} (hvs : vs.Nodup)
    (hs : ∀ v ∈ vs, s.isAssigned v = false) (g : σ) : ∃ p, toss vs s g = .ok p ∧
      ∀ v, p.state.isAssigned v = true ↔ s.isAssigned v = true ∨ v ∈ vs := by
  induction vs generalizing s g with
  | nil => exact ⟨⟨s, g⟩, rfl, fun v => by simp⟩
  | cons w vs ih =>
      obtain ⟨hw, hvs⟩ := List.nodup_cons.mp hvs
      rw [toss]
      generalize RandomSource.coin g = toss
      obtain ⟨b, g'⟩ := toss
      have hopen : -(⟨w, b⟩ : Literal) ∉ s := by
        apply Assignment.not_mem_of_isAssigned
        exact hs w List.mem_cons_self
      dsimp only
      rw [Assignment.assign?_of_neg_not_mem hopen]
      obtain ⟨p, hp, hiff⟩ := ih (s := s.assign ⟨w, b⟩) hvs (fun v hv => by
        have hvs' := hs v (List.mem_cons_of_mem w hv)
        rw [Bool.eq_false_iff, ne_eq, Assignment.isAssigned_assign, hvs']
        rintro (rfl | h)
        · exact hw hv
        · cases h) g'
      refine ⟨p, hp, fun v => ?_⟩
      rw [hiff, Assignment.isAssigned_assign, List.mem_cons]
      dsimp only
      tauto

theorem choose_eq_ok (F : Formula) (noise : Float) (p : Position σ) (hc : c ≠ ∅) :
    ∃ v ∈ c.vars, ∃ g, choose F noise p c = .ok (some v, ⟨p.state, g⟩) := by
  unfold choose
  generalize RandomSource.fraction p.source = drawn
  obtain ⟨x, g⟩ := drawn
  dsimp only
  split
  · obtain ⟨l, hl, g', heq⟩ := draw_eq_ok (mt Clause.toList_eq_nil.mp hc) g
    refine ⟨l.var, Clause.mem_vars.mpr ⟨l, hl, rfl⟩, g', ?_⟩
    rw [heq]
    rfl
  · obtain ⟨b, heq, hfirst⟩ := greedyPick_spec F p.state hc
    have hmem := hfirst.mem
    rw [List.mem_map] at hmem
    refine ⟨b.var, Clause.mem_vars.mpr hmem, g, ?_⟩
    rw [heq]
    rfl

end Draws

/-! ### Steps -/

theorem unsatisfied_eq_nil : unsatisfied F s = [] ↔ F.isSatisfiedBy s = true := by
  rw [isSatisfiedBy_iff, unsatisfied, List.filter_eq_nil_iff]
  simp

/-- Every variable of the formula has a value, and no other one. -/
def Total (F : Formula) (s : Assignment) : Prop := ∀ v, s.isAssigned v = true ↔ v ∈ F.vars

/-- The assignments differ in one variable, which belongs to a clause that the first one makes
false and the second one satisfies. -/
def Moves (F : Formula) (s t : Assignment) : Prop :=
  ∃ v, (∀ w, s.value? w ≠ t.value? w ↔ w = v) ∧
    ∃ c ∈ F, v ∈ c.vars ∧ c.eval s = some false ∧ c.eval t = some true

theorem Total.flip (h : Total F s) (v : Var) : Total F (s.flip v) := by
  intro w
  rw [Assignment.isAssigned_flip]
  exact h w

theorem moves_flip (hc : c ∈ F) (hv : v ∈ c.vars) (hs : c.eval s = some false) :
    Moves F s (s.flip v) := by
  obtain ⟨l, hl, rfl⟩ := Clause.mem_vars.mp hv
  have hneg : -l ∈ s := Clause.eval_eq_false.mp hs l hl
  refine ⟨l.var, fun w => ⟨fun hne => ?_, ?_⟩, c, hc, hv, hs, ?_⟩
  · by_contra hw
    exact hne (Assignment.value?_flip_of_ne hw).symm
  · rintro rfl
    have hflip : (s.flip l.var).value? l.var = some !(-l).positive :=
      Assignment.value?_flip_self hneg
    have hvalue : s.value? l.var = some (-l).positive := Assignment.value?_eq_some.mpr hneg
    rw [hvalue, hflip]
    simp
  · refine Clause.eval_eq_true.mpr ⟨l, hl, ?_⟩
    rw [Assignment.mem_flip, if_pos rfl]
    exact hneg

/-- What a step from a position with a value for every variable leads to. -/
inductive Moved (F : Formula) (p : Position σ) : Step σ → Prop
  | model (h : F.isSatisfiedBy p.state = true) : Moved F p .model
  | flip {v : Var} {c : Clause} {q : Position σ} (h : ¬ F.isSatisfiedBy p.state = true)
      (hq : Total F q.state) (hmoves : Moves F p.state q.state) : Moved F p (.flip v c q)

theorem step_moves [RandomSource σ] (hF : ∅ ∉ F) (noise : Float) {p : Position σ}
    (hp : Total F p.state) : Moved F p (step F noise p) := by
  unfold step
  cases hcs : unsatisfied F p.state with
  | nil => exact .model (unsatisfied_eq_nil.mp hcs)
  | cons c cs =>
      obtain ⟨d, hd, g, hdraw⟩ := draw_eq_ok (List.cons_ne_nil c cs) p.source
      rw [← hcs, unsatisfied, List.mem_filter] at hd
      obtain ⟨hdF, hds⟩ := hd
      have hne : d ≠ ∅ := by
        rintro rfl
        exact hF hdF
      have hfalse : d.eval p.state = some false := by
        refine (Clause.isSatisfiedBy_or_eval_eq_false fun l hl => ?_).resolve_left ?_
        · exact (hp l.var).mpr (mem_vars_of_mem hdF hl)
        · simpa using hds
      obtain ⟨v, hv, g', hchoose⟩ := choose_eq_ok F noise (⟨p.state, g⟩ : Position σ) hne
      have hnot : ¬ F.isSatisfiedBy p.state = true := by
        rw [← unsatisfied_eq_nil, hcs]
        exact List.cons_ne_nil c cs
      simp only [hdraw, hchoose, bind, Except.bind, pure, Except.pure]
      exact .flip hnot (hp.flip v) (moves_flip hdF hv hfalse)

/-! ### Visited positions -/

/-- The positions that a walk of at most `n` flips comes to, from `p` on. -/
def visited [RandomSource σ] (F : Formula) (noise : Float) : Nat → Position σ → List (Position σ)
  | 0, p => [p]
  | n + 1, p =>
      p :: match step F noise p with
        | .flip _ _ q => visited F noise n q
        | .model | .fault _ | .stuck _ => []

theorem head?_visited [RandomSource σ] (F : Formula) (noise : Float) (n : Nat) (p : Position σ) :
    (visited F noise n p).head? = some p := by
  cases n <;> rfl

/-- The course of a walk with `n` flips to spare over the positions `ps`: it ends at the last
one, since that is a model or there are no more flips, and the others are no models. -/
structure Course (F : Formula) (n : Nat) (ps : List (Position σ)) (w : Walk σ) : Prop where
  total : ∀ q ∈ ps, Total F q.state
  moves : ps.IsChain fun p q => Moves F p.state q.state
  exists_append : ∃ before, ps = before ++ [w.position] ∧
    ∀ q ∈ before, ¬ F.isSatisfiedBy q.state = true
  length_le : ps.length ≤ n + 1
  ending : w.ending = .model ∧ F.isSatisfiedBy w.position.state = true ∨
    w.ending = .stopped ∧ ps.length = n + 1

theorem Course.cons {n : Nat} {p q : Position σ} {ps : List (Position σ)} {w : Walk σ}
    (h : Course F n (q :: ps) w) (hp : Total F p.state) (hF : ¬ F.isSatisfiedBy p.state = true)
    (hpq : Moves F p.state q.state) : Course F (n + 1) (p :: q :: ps) w where
  total r hr := by
    rcases List.mem_cons.mp hr with rfl | hr
    · exact hp
    · exact h.total r hr
  moves := List.isChain_cons_cons.mpr ⟨hpq, h.moves⟩
  exists_append := by
    obtain ⟨before, heq, hbefore⟩ := h.exists_append
    refine ⟨p :: before, by rw [heq]; rfl, fun r hr => ?_⟩
    rcases List.mem_cons.mp hr with rfl | hr
    · exact hF
    · exact hbefore r hr
  length_le := Nat.succ_le_succ h.length_le
  ending := h.ending.imp_right fun ⟨hstop, hlen⟩ => ⟨hstop, congrArg Nat.succ hlen⟩

theorem walk_course [RandomSource σ] (hF : ∅ ∉ F) (noise : Float) (n : Nat)
    (flips : List (Var × Clause)) {p : Position σ} (hp : Total F p.state) :
    Course F n (visited F noise n p) (walk F noise n flips p) := by
  induction n generalizing flips p with
  | zero =>
      refine ⟨fun q hq => ?_, .singleton p, ⟨[], rfl, fun q hq => nomatch hq⟩, Nat.le_refl 1,
        .inr ⟨rfl, rfl⟩⟩
      rwa [List.mem_singleton.mp hq]
  | succ n ih =>
      have hstep := step_moves hF noise hp
      rw [visited, walk]
      cases hs : step F noise p with
      | model =>
          rw [hs] at hstep
          cases hstep with
          | model hsat =>
              refine ⟨fun q hq => ?_, .singleton p, ⟨[], rfl, fun q hq => nomatch hq⟩,
                Nat.succ_le_succ (Nat.zero_le _), .inl ⟨rfl, hsat⟩⟩
              rwa [List.mem_singleton.mp hq]
      | fault f => rw [hs] at hstep; cases hstep
      | stuck q => rw [hs] at hstep; cases hstep
      | flip v c q =>
          rw [hs] at hstep
          cases hstep with
          | flip hnot hq hmoves =>
              have hcourse := ih ((v, c) :: flips) hq
              dsimp only
              have hhead := head?_visited F noise n q
              generalize visited F noise n q = ps at hcourse hhead
              obtain ⟨ps, rfl⟩ := List.head?_eq_some_iff.mp hhead
              exact hcourse.cons hp hnot hmoves

/-! ### The verdict -/

/-- A walk that stopped gets one last look. -/
theorem result_verdict_stopped (F : Formula) (n : Nat) (flips : List (Var × Clause))
    (p : Position σ) : ((⟨flips, p, .stopped⟩ : Walk σ).verdict F n).result = .ok
      (if F.isSatisfiedBy p.state then .sat p.state else .unknown) := by
  unfold Walk.verdict
  by_cases hsat : F.isSatisfiedBy p.state = true
  · simp [hsat, unsatisfied_eq_nil.mpr hsat]
  · have hne : unsatisfied F p.state ≠ [] := mt unsatisfied_eq_nil.mp hsat
    simp [hsat, hne]

theorem Course.result_verdict {n : Nat} {ps : List (Position σ)} {w : Walk σ}
    (h : Course F n ps w) : (w.verdict F n).result = .ok
      (if F.isSatisfiedBy w.position.state then .sat w.position.state else .unknown) := by
  rcases h.ending with ⟨hend, hsat⟩ | ⟨hend, -⟩
  · unfold Walk.verdict
    rw [hend, hsat]
    rfl
  · rw [← result_verdict_stopped F n w.flips w.position, ← hend]

/-- The first position that satisfies the formula is number `k`, with the assignment `s`. -/
def FirstModel (F : Formula) (ps : List (Position σ)) (k : Nat) (s : Assignment) : Prop :=
  (ps.map Position.state)[k]? = some s ∧ F.isSatisfiedBy s = true ∧
    ∀ q ∈ ps.take k, ¬ F.isSatisfiedBy q.state = true

theorem Course.firstModel_iff {n : Nat} {ps : List (Position σ)} {w : Walk σ}
    (h : Course F n ps w) : (∃ k ≤ n, FirstModel F ps k s) ↔
      F.isSatisfiedBy w.position.state = true ∧ w.position.state = s := by
  obtain ⟨before, heq, hbefore⟩ := h.exists_append
  have hlen := h.length_le
  subst heq
  rw [List.length_append, List.length_singleton] at hlen
  constructor
  · rintro ⟨k, -, hk, hsat, -⟩
    obtain ⟨q, hq, rfl⟩ := List.mem_map.mp (List.mem_of_getElem? hk)
    rcases List.mem_append.mp hq with hq | hq
    · exact absurd hsat (hbefore q hq)
    · rw [List.mem_singleton.mp hq] at hsat ⊢
      exact ⟨hsat, rfl⟩
  · rintro ⟨hsat, rfl⟩
    refine ⟨before.length, by omega, by simp, hsat, ?_⟩
    rw [List.take_left]
    exact hbefore

theorem Course.exhausted_iff {n : Nat} {ps : List (Position σ)} {w : Walk σ}
    (h : Course F n ps w) :
    (ps.length = n + 1 ∧ ∀ q ∈ ps, ¬ F.isSatisfiedBy q.state = true) ↔
      ¬ F.isSatisfiedBy w.position.state = true := by
  obtain ⟨before, heq, hbefore⟩ := h.exists_append
  have hlast : w.position ∈ ps := by simp [heq]
  refine ⟨fun hno => hno.2 _ hlast, fun hno => ⟨?_, fun q hq => ?_⟩⟩
  · exact (h.ending.resolve_left fun hmodel => hno hmodel.2).2
  · rw [heq, List.mem_append, List.mem_singleton] at hq
    rcases hq with hq | rfl
    · exact hbefore q hq
    · exact hno

section Draws

variable [RandomSource σ]

theorem result_solve_of_empty_mem (hF : ∅ ∈ F) (maxFlips : Nat) (noise : Float) (g : σ) :
    (solve F maxFlips noise g).1.result = .ok .unsat := by
  unfold solve
  rw [if_pos (hasEmptyClause_iff_mem.mpr hF)]

/-- Without an empty clause, the walk starts from values for all variables, and its verdict is
the one on the last position. -/
theorem exists_course (hF : ∅ ∉ F) (maxFlips : Nat) (noise : Float) (g : σ) :
    ∃ p w, toss F.vars.toList ∅ g = .ok p ∧
      Course F maxFlips (visited F (clampNoise noise) maxFlips p) w ∧
      (solve F maxFlips noise g).1.result = .ok
        (if F.isSatisfiedBy w.position.state then .sat w.position.state else .unknown) := by
  obtain ⟨p, hp, hassigned⟩ := toss_eq_ok F.vars.nodup (s := ∅) (fun _ _ => rfl) g
  have htotal : Total F p.state := by
    intro v
    rw [hassigned]
    exact or_iff_right Bool.false_ne_true
  have hcourse := walk_course hF (clampNoise noise) maxFlips [] htotal
  refine ⟨p, _, hp, hcourse, ?_⟩
  rw [solve, if_neg (mt hasEmptyClause_iff_mem.mp hF), hp]
  exact hcourse.result_verdict

theorem exists_verdict (F : Formula) (maxFlips : Nat) (noise : Float) (g : σ) :
    ∃ r, (solve F maxFlips noise g).1.result = .ok r := by
  by_cases hF : ∅ ∈ F
  · exact ⟨.unsat, result_solve_of_empty_mem hF maxFlips noise g⟩
  · obtain ⟨p, w, -, -, hresult⟩ := exists_course hF maxFlips noise g
    exact ⟨_, hresult⟩

theorem isModel_of_solve {m : Assignment} {maxFlips : Nat} {noise : Float} {g : σ}
    (h : (solve F maxFlips noise g).1.result = .ok (.sat m)) : F.IsModel m := by
  by_cases hF : ∅ ∈ F
  · rw [result_solve_of_empty_mem hF] at h
    cases h
  · obtain ⟨p, w, -, hcourse, hresult⟩ := exists_course hF maxFlips noise g
    rw [hresult] at h
    split at h
    · next hsat =>
        cases h
        have hlast : w.position ∈ visited F (clampNoise noise) maxFlips p := by
          obtain ⟨before, heq, -⟩ := hcourse.exists_append
          simp [heq]
        exact ⟨hcourse.total _ hlast, hsat⟩
    · cases h

/-- The random walk always comes to a verdict: a formula with the empty clause has no model, and
otherwise the verdict is about the positions of the walk.  They give values to the variables of
the formula, and each comes from the one before it by turning round one variable of a clause that
was false and becomes true.  The verdict is the first model among them, and it is unknown exactly
when all flips were used up and none of the positions is a model. -/
theorem visited_decides (F : Formula) (maxFlips : Nat) (noise : Float) (g : σ) :
    (∃ r, (solve F maxFlips noise g).1.result = .ok r) ∧
    ((solve F maxFlips noise g).1.result = .ok .unsat ↔ ∅ ∈ F) ∧
    (∅ ∉ F → ∃ p, toss F.vars.toList ∅ g = .ok p ∧
      let ps := visited F (clampNoise noise) maxFlips p
      (∀ q ∈ ps, Total F q.state) ∧
      ps.IsChain (fun q r => Moves F q.state r.state) ∧
      (∀ s, (solve F maxFlips noise g).1.result = .ok (.sat s) ↔
        ∃ k ≤ maxFlips, FirstModel F ps k s) ∧
      ((solve F maxFlips noise g).1.result = .ok .unknown ↔
        ps.length = maxFlips + 1 ∧ ∀ q ∈ ps, ¬ F.isSatisfiedBy q.state = true)) := by
  refine ⟨exists_verdict F maxFlips noise g, ?_⟩
  by_cases hF : ∅ ∈ F
  · rw [result_solve_of_empty_mem hF]
    exact ⟨iff_of_true rfl hF, fun hno => absurd hF hno⟩
  · obtain ⟨p, w, hp, hcourse, hresult⟩ := exists_course hF maxFlips noise g
    rw [hresult]
    refine ⟨?_, fun _ => ⟨p, hp, hcourse.total, hcourse.moves, fun s => ?_, ?_⟩⟩
    · refine iff_of_false (fun h => ?_) hF
      split at h <;> cases h
    · rw [hcourse.firstModel_iff]
      split <;> simp_all
    · rw [hcourse.exhausted_iff]
      split <;> simp_all

/-! ### More flips -/

/-- What the last look finds, the next step would have found. -/
theorem step_of_isSatisfiedBy (noise : Float) {p : Position σ}
    (h : F.isSatisfiedBy p.state = true) : step F noise p = .model := by
  unfold step
  rw [unsatisfied_eq_nil.mpr h]

/-- With more flips to spare, a walk that found a model makes the same steps and ends there. -/
theorem walk_of_le {noise : Float} {m n b b' : Nat} (hmn : m ≤ n) {flips : List (Var × Clause)}
    {p : Position σ} (h : ((walk F noise m flips p).verdict F b).result = .ok (.sat s)) :
    ((walk F noise n flips p).verdict F b').result = .ok (.sat s) ∧
      (walk F noise n flips p).position = (walk F noise m flips p).position := by
  induction m generalizing n flips p with
  | zero =>
      rw [walk, result_verdict_stopped, Except.ok.injEq] at h
      by_cases hsat : F.isSatisfiedBy p.state = true
      · cases n with
        | zero =>
            rw [walk, result_verdict_stopped, h]
            exact ⟨rfl, rfl⟩
        | succ n =>
            rw [if_pos hsat] at h
            have hwalk : walk F noise (n + 1) flips p = ⟨flips, p, .model⟩ := by
              rw [walk, step_of_isSatisfiedBy noise hsat]
            rw [hwalk, ← h]
            exact ⟨rfl, rfl⟩
      · rw [if_neg hsat] at h
        cases h
  | succ m ih =>
      obtain ⟨n, rfl⟩ : ∃ k, n = k + 1 := ⟨n - 1, by omega⟩
      rw [walk] at h ⊢
      rw [walk]
      cases hstep : step F noise p with
      | flip v c q =>
          rw [hstep] at h
          exact ih (by omega) h
      | model =>
          rw [hstep] at h
          exact ⟨h, rfl⟩
      | fault f =>
          rw [hstep] at h
          cases h
      | stuck q =>
          rw [hstep] at h
          dsimp only at h ⊢
          rw [result_verdict_stopped] at h ⊢
          exact ⟨h, rfl⟩

/-- A model that is found is found with every larger number of flips, too, by the same draws. -/
theorem solve_finds_with_more_flips {noise : Float} {g : σ} {m n : Nat} (hmn : m ≤ n)
    (h : (solve F m noise g).1.result = .ok (.sat s)) :
    (solve F n noise g).1.result = .ok (.sat s) ∧
      (solve F n noise g).2 = (solve F m noise g).2 := by
  unfold solve at h ⊢
  split
  · next hempty =>
      rw [if_pos hempty] at h
      cases h
  · next hempty =>
      rw [if_neg hempty] at h
      cases htoss : toss F.vars.toList ∅ g with
      | error f =>
          rw [htoss] at h
          cases h
      | ok p =>
          rw [htoss] at h
          obtain ⟨hresult, hposition⟩ := walk_of_le hmn h
          exact ⟨hresult, congrArg Position.source hposition⟩

end Draws

/-- From a false start, one flip and the last look find the model of a unit clause, and so do five
flips. -/
theorem solve_finds_with_more_flips_of_unit :
    let v : Var := ⟨1, by decide⟩
    let F : Formula := ⟨[.unit (.pos v)]⟩
    let s := (∅ : Assignment).assign (.pos v)
    let solved (n : Nat) := (solve F n 0.5 (Replay.ofList [0])).1.result
    1 ≤ 5 ∧ solved 1 = .ok (.sat s) ∧ solved 5 = .ok (.sat s) := by
  intro v F s solved
  have htoss : toss F.vars.toList ∅ (Replay.ofList [0]) =
      .ok ⟨(∅ : Assignment).assign (.neg v), ⟨#[0], 1⟩⟩ := by rfl
  have hfalse : unsatisfied F ((∅ : Assignment).assign (.neg v)) = [.unit (.pos v)] := rfl
  -- whatever is drawn, it is the one clause and its one variable
  have hdraw := draw_eq_ok (List.cons_ne_nil (Clause.unit (.pos v)) []) (⟨#[0], 1⟩ : Replay)
  obtain ⟨c, hc, g, hdraw⟩ := hdraw
  obtain rfl := List.mem_singleton.mp hc
  have hchoose := choose_eq_ok F (clampNoise 0.5)
    (⟨(∅ : Assignment).assign (.neg v), g⟩ : Position Replay) (Clause.unit_ne_empty (.pos v))
  obtain ⟨w, hw, g, hchoose⟩ := hchoose
  obtain ⟨l, hl, rfl⟩ := Clause.mem_vars.mp hw
  obtain rfl := Clause.mem_unit.mp hl
  have hone : solved 1 = .ok (.sat s) := by
    show (solve F 1 0.5 (Replay.ofList [0])).1.result = .ok (.sat s)
    rw [solve, if_neg (by decide), htoss]
    dsimp only
    rw [walk, step, hfalse]
    simp only [hdraw, hchoose, bind, Except.bind, pure, Except.pure]
    rw [walk, result_verdict_stopped]
    rfl
  exact ⟨by decide, hone, (solve_finds_with_more_flips (by decide) hone).1⟩

end RandomWalk

end Clausal
