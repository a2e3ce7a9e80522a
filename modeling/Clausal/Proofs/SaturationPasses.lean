import Mathlib.Algebra.Group.Nat.Defs
import Mathlib.Data.List.Count
import Mathlib.Data.List.Nodup
import Clausal.Proofs.ResolutionClosure

/-! # The passes of saturation

`courseOf F` is the saturation of `F` in a monad that keeps a record.  It is `saturateWith`, as
`saturate F` is, with steps that write down at which stages a pass begins and which pairs of clauses
are resolved.  Whatever its steps do besides, a saturation comes to the result of the plain run
(`saturateWith_eq`).

Every pass starts from clauses that are listed once each (`Stage.Tidy`).  A pass that comes to its
end resolves the pairs that it looks at (`calls_pass`), and these bring each clause of the frontier
together with the processed ones and with the rest of the frontier (`ResolvedOnce.append_pairs`).

Of `n` variables there are `3 ^ n` clauses without complements, one of which is empty, and a pass
takes at least one clause out of the frontier (`length_heads_add_lt`).

The main statement is `courseOf_resolves_once`. -/

namespace Clausal

/-! ### Counting clauses -/

namespace Clause

variable {c : Clause} {l : Literal} {v : Var} {vs : List Var}

/-- The clauses over some variables that hold at most one literal of each. -/
def consistentOver : List Var → List Clause
  | [] => [∅]
  | v :: vs =>
      consistentOver vs ++ (consistentOver vs).map (unit (.pos v)).union ++
        (consistentOver vs).map (unit (.neg v)).union

theorem length_consistentOver (vs : List Var) : (consistentOver vs).length = 3 ^ vs.length := by
  induction vs with
  | nil => rfl
  | cons v vs ih =>
      rw [consistentOver, List.length_append, List.length_append, List.length_map, List.length_map,
        ih, List.length_cons, Nat.pow_succ]
      omega

theorem union_erase (hl : l ∈ c) : (unit l).union (c.erase l) = c := by
  refine ext fun m => ?_
  rw [mem_union, mem_unit, mem_erase]
  by_cases hm : m = l <;> simp [hm, hl]

theorem mem_consistentOver (hc : c.IsConsistent) (h : ∀ l ∈ c, l.var ∈ vs) :
    c ∈ consistentOver vs := by
  induction vs generalizing c with
  | nil =>
      refine List.mem_singleton.mpr (ext fun l => iff_of_false (fun hl => ?_) (not_mem_empty l))
      exact List.not_mem_nil (h l hl)
  | cons v vs ih =>
      have hrest : ∀ l ∈ c, l.var ≠ v → l.var ∈ vs := fun l hl hv =>
        (List.mem_cons.mp (h l hl)).resolve_left hv
      have hsplit : ∀ l : Literal, l.var = v → l ∈ c →
          c ∈ (consistentOver vs).map (unit l).union := by
        rintro l rfl hl
        have herase : (c.erase l).IsConsistent := fun m hm hneg =>
          hc m (mem_erase.mp hm).1 (mem_erase.mp hneg).1
        refine List.mem_map.mpr ⟨c.erase l, ih herase fun m hm => ?_, union_erase hl⟩
        obtain ⟨hmc, hml⟩ := mem_erase.mp hm
        refine hrest m hmc fun hvar => ?_
        rcases Literal.eq_or_eq_neg hvar with rfl | rfl
        · exact hml rfl
        · exact hc l hl hmc
      rw [consistentOver, List.mem_append, List.mem_append]
      by_cases hp : .pos v ∈ c
      · exact .inl (.inr (hsplit _ rfl hp))
      by_cases hn : .neg v ∈ c
      · exact .inr (hsplit _ rfl hn)
      refine .inl (.inl (ih hc fun l hl => hrest l hl ?_))
      rintro rfl
      rcases l with ⟨v, _ | _⟩
      · exact hn hl
      · exact hp hl

end Clause

/-- A clause that says something about variables of the formula: it is not empty, and no literal
stands beside its complement. -/
structure Formula.Informative (F : Formula) (c : Clause) : Prop where
  ne_empty : c ≠ ∅
  isConsistent : c.IsConsistent
  var_mem : ∀ v ∈ c.vars, v ∈ F.vars

theorem Formula.length_lt_of_informative {F : Formula} {cs : List Clause} (hcs : cs.Nodup)
    (h : ∀ c ∈ cs, F.Informative c) : cs.length < 3 ^ F.vars.size := by
  have hnodup : (∅ :: cs).Nodup := List.nodup_cons.mpr ⟨fun hmem => (h ∅ hmem).ne_empty rfl, hcs⟩
  have hsub : ∅ :: cs ⊆ Clause.consistentOver F.vars.toList := by
    intro c hc
    rcases List.mem_cons.mp hc with rfl | hc
    · exact Clause.mem_consistentOver (fun l hl => absurd hl (Clause.not_mem_empty l))
        fun l hl => absurd hl (Clause.not_mem_empty l)
    · refine Clause.mem_consistentOver (h c hc).isConsistent fun l hl => ?_
      exact (h c hc).var_mem l.var (Clause.mem_vars.mpr ⟨l, hl, rfl⟩)
  calc cs.length < (∅ :: cs).length := Nat.lt_succ_self _
    _ ≤ (Clause.consistentOver F.vars.toList).length := hnodup.length_le_of_subset hsub
    _ = 3 ^ F.vars.size := Clause.length_consistentOver F.vars.toList

/-- A list tells a set if it has the same clauses, each once. -/
theorem SortedSet.perm_ofTree {t : Std.TreeSet Clause} {cs : List Clause} (hcs : cs.Nodup)
    (h : ∀ c, c ∈ t ↔ c ∈ cs) : (SortedSet.ofTree t).toList.Perm cs := by
  refine (List.perm_ext_iff_of_nodup (SortedSet.nodup _) hcs).mpr fun c => ?_
  rw [SortedSet.mem_toList, SortedSet.mem_ofTree]
  exact h c

namespace Saturation

variable {F : Formula} {U : List Literal}

/-! ### Saturations in a monad -/

section

open MonadAttach LawfulMonadAttach

variable {m : Type → Type} [Monad m] [LawfulMonad m] [MonadAttach m] [LawfulMonadAttach m]

theorem runWith_eq (S : Steps m U) {st : Stage U} {t : Traced (Option (SortedSet Clause))}
    (h : CanReturn (runWith S st) t) : t = run st := by
  -- the run is taken apart step by step, and what a pass can return are its plain findings
  induction st using Stage.induction generalizing t with
  | finished st hnil =>
      rw [runWith_of_nil S hnil] at h
      rw [run_of_nil hnil]
      exact (eq_of_canReturn_pure h).symm
  | refuted st q hne hq =>
      rw [runWith_of_ne_nil S hne] at h
      obtain ⟨_, -, h⟩ := canReturn_bind_imp' h
      obtain ⟨⟨r, hr⟩, -, h⟩ := canReturn_bind_imp' h
      cases (S.pass_eq hr).trans hq
      rw [run_of_error hne hq]
      exact (eq_of_canReturn_pure h).symm
  | next st k hne hk ih =>
      rw [runWith_of_ne_nil S hne] at h
      obtain ⟨_, -, h⟩ := canReturn_bind_imp' h
      obtain ⟨⟨r, hr⟩, -, h⟩ := canReturn_bind_imp' h
      cases (S.pass_eq hr).trans hk
      obtain ⟨later, hlater, h⟩ := canReturn_bind_imp' h
      rw [run_of_ok hne hk, ← ih hlater]
      exact (eq_of_canReturn_pure h).symm

/-- The steps of a saturation have no bearing on its result. -/
theorem saturateWith_eq (S : Steps m (literalsOf F)) {t : Traced (Option (SortedSet Clause))}
    (h : CanReturn (saturateWith F S) t) : t = saturate F := by
  rw [saturateWith] at h
  split at h
  · next hempty =>
      rw [saturate_of_hasEmptyClause hempty]
      exact (eq_of_canReturn_pure h).symm
  · next hempty =>
      rw [saturate_of_not_hasEmptyClause (Bool.eq_false_iff.mpr hempty)]
      exact runWith_eq S h

end

/-! ### A saturation on record -/

/-- A result with what was done on the way to it. -/
structure Recorded (U : List Literal) (α : Type) where
  result : α
  /-- The stages at which a pass began. -/
  heads : List (Stage U)
  /-- The pairs of clauses that were resolved. -/
  calls : List (Clause × Clause)

namespace Recorded

variable {α β : Type}

instance : Monad (Recorded U) where
  pure a := ⟨a, [], []⟩
  bind r f :=
    ⟨(f r.result).result, r.heads ++ (f r.result).heads, r.calls ++ (f r.result).calls⟩

instance : MonadAttach (Recorded U) where
  CanReturn r a := r.result = a
  attach r := ⟨⟨r.result, rfl⟩, r.heads, r.calls⟩

theorem pure_eq (a : α) : (pure a : Recorded U α) = ⟨a, [], []⟩ := rfl

theorem bind_eq (r : Recorded U α) (f : α → Recorded U β) : r >>= f =
    ⟨(f r.result).result, r.heads ++ (f r.result).heads, r.calls ++ (f r.result).calls⟩ := rfl

theorem map_eq (f : α → β) (r : Recorded U α) : f <$> r = ⟨f r.result, r.heads, r.calls⟩ := by
  show r >>= (fun a => pure (f a)) = _
  simp only [bind_eq, pure_eq, List.append_nil]

instance : LawfulMonad (Recorded U) :=
  LawfulMonad.mk' (Recorded U)
    (fun r => map_eq id r)
    (fun a f => rfl)
    (fun r f g => by simp only [bind_eq, List.append_assoc])

instance : LawfulMonadAttach (Recorded U) where
  map_attach := map_eq _ _
  canReturn_map_imp {_ _ r _} h := by
    rw [map_eq] at h
    exact h ▸ r.result.property

theorem attach_bind {r : Recorded U α} {a : α} (h : r.result = a)
    (f : {a // r.result = a} → Recorded U β) : MonadAttach.attach r >>= f =
      ⟨(f ⟨a, h⟩).result, r.heads ++ (f ⟨a, h⟩).heads, r.calls ++ (f ⟨a, h⟩).calls⟩ := by
  subst h
  rfl

end Recorded

/-- The steps that go on record. -/
def recording : Steps (Recorded U) U where
  resolve c d := ⟨c.resolve d, [], [(c, d)]⟩
  enter st := ⟨(), [st], []⟩
  resolve_eq h := h.symm

/-- The course of the saturation from a stage on. -/
def course (st : Stage U) : Recorded U (Traced (Option (SortedSet Clause))) :=
  runWith recording st

/-- The course of the saturation of a formula. -/
def courseOf (F : Formula) : Recorded (literalsOf F) (Traced (Option (SortedSet Clause))) :=
  saturateWith F recording

theorem result_course (st : Stage U) : (course st).result = run st := runWith_eq recording rfl

theorem result_courseOf (F : Formula) : (courseOf F).result = saturate F :=
  saturateWith_eq recording rfl

variable {st : Stage U} {k : Findings} {q : Clause × Clause}

/-- Pairs that are examined to their end are resolved one after another. -/
theorem examineAllWith_recording (ps : List (Clause × Clause)) (k : Findings) :
    (examineAllWith (recording (U := U)).resolve ps k).heads = [] ∧
    ∀ k', examineAll ps k = .ok k' →
      (examineAllWith (recording (U := U)).resolve ps k).calls = ps := by
  induction ps generalizing k with
  | nil => exact ⟨rfl, fun _ _ => rfl⟩
  | cons p ps ih =>
      have hp : examineWith (recording (U := U)).resolve p k = ⟨examine p k, [], [p]⟩ := rfl
      rw [examineAllWith, hp, examineAll_cons]
      cases examine p k with
      | error q => exact ⟨rfl, fun k' h => by cases h⟩
      | ok k₁ =>
          obtain ⟨hheads, hcalls⟩ := ih k₁
          exact ⟨hheads, fun k' h => congrArg (p :: ·) (hcalls k' h)⟩

theorem result_pass (st : Stage U) : (recording.pass st).result = pass st :=
  recording.pass_eq rfl

theorem heads_pass (st : Stage U) : (recording.pass st).heads = [] := by
  rw [Steps.pass, examineFrontierWith_eq]
  exact (examineAllWith_recording _ _).1

/-- A pass that comes to its end resolves the pairs that it looks at, one after another. -/
theorem calls_pass (h : pass st = .ok k) :
    (recording.pass st).calls = pairs st.processed st.frontier := by
  rw [pass_eq] at h
  rw [Steps.pass, examineFrontierWith_eq]
  exact (examineAllWith_recording _ _).2 k h

theorem course_of_nil (h : st.frontier = []) : course st = ⟨run st, [], []⟩ := by
  rw [course, runWith_of_nil _ h, run_of_nil h]
  rfl

theorem course_of_error (hne : st.frontier ≠ []) (h : pass st = .error q) :
    course st = ⟨run st, [st], (recording.pass st).calls⟩ := by
  have hpass := (result_pass st).trans h
  rw [course, runWith_of_ne_nil _ hne, Recorded.attach_bind hpass, heads_pass, run_of_error hne h]
  exact congrArg (Recorded.mk _ [st]) (List.append_nil _)

theorem course_of_ok (hne : st.frontier ≠ []) (h : pass st = .ok k) :
    course st =
      ⟨run st, st :: (course (st.next k h)).heads,
        pairs st.processed st.frontier ++ (course (st.next k h)).calls⟩ := by
  have hpass := (result_pass st).trans h
  rw [run_of_ok hne h, ← result_course, ← calls_pass h, course, runWith_of_ne_nil _ hne,
    Recorded.attach_bind hpass, heads_pass]
  show (⟨_, st :: ((course (st.next k h)).heads ++ []),
    _ ++ ((course (st.next k h)).calls ++ [])⟩ : Recorded U _) = _
  rw [List.append_nil, List.append_nil]
  rfl

/-- A pass leaves one event. -/
theorem length_heads_course (st : Stage U) :
    (course st).heads.length = (run st).log.length := by
  induction st using Stage.induction with
  | finished st hnil =>
      rw [course_of_nil hnil, run_of_nil hnil]
      rfl
  | refuted st q hne h =>
      rw [course_of_error hne h, run_of_error hne h]
      rfl
  | next st k hne h ih =>
      rw [course_of_ok hne h, run_of_ok hne h, Traced.log_after, List.length_cons, ih,
        List.singleton_append, List.length_cons]

theorem courseOf_of_hasEmptyClause (h : F.hasEmptyClause = true) :
    courseOf F = ⟨saturate F, [], []⟩ := by
  rw [courseOf, saturateWith, if_pos h, saturate_of_hasEmptyClause h]
  rfl

theorem courseOf_of_not_hasEmptyClause (h : F.hasEmptyClause = false) :
    courseOf F = course (start F) := by
  rw [courseOf, saturateWith, if_neg (Bool.eq_false_iff.mp h), course]

theorem length_heads_courseOf (hF : ∅ ∉ F) :
    (courseOf F).heads.length = (saturate F).log.length := by
  have h : F.hasEmptyClause = false :=
    Bool.eq_false_iff.mpr (mt Formula.hasEmptyClause_iff_mem.mp hF)
  rw [courseOf_of_not_hasEmptyClause h, saturate_of_not_hasEmptyClause h]
  exact length_heads_course (start F)

/-! ### The clauses at the head of a pass -/

/-- What is found is what is new to the set of known clauses, so that it is not found again. -/
theorem perm_known_of_examineAll {ps : List (Clause × Clause)} {k k' : Findings}
    {cs : List Clause} (hk : (SortedSet.ofTree k.known).toList.Perm (cs ++ k.found))
    (h : examineAll ps k = .ok k') :
    (SortedSet.ofTree k'.known).toList.Perm (cs ++ k'.found) := by
  refine examineAll_induction
    (P := fun _ k => (SortedSet.ofTree k.known).toList.Perm (cs ++ k.found)) h hk ?_
  intro _ p k k' _ hex hk
  cases hex with
  | unresolved _ => exact hk
  | old _ _ => exact hk
  | @new r _ _ _ hnew =>
      have hmem : ∀ c, c ∈ k.known ↔ c ∈ cs ++ k.found := fun c => by
        rw [← hk.mem_iff, SortedSet.mem_toList, SortedSet.mem_ofTree]
      have hnodup : (r :: (cs ++ k.found)).Nodup :=
        List.nodup_cons.mpr ⟨mt (hmem r).mpr hnew, hk.nodup (SortedSet.nodup _)⟩
      refine SortedSet.perm_ofTree (List.nodup_middle.mpr hnodup) fun c => ?_
      rw [mem_tree_insert, hmem, List.perm_middle.mem_iff, List.mem_cons]

variable {c d : Clause}

theorem nodup_found_of_pass (h : pass st = .ok k) : k.found.Nodup := by
  rw [pass_eq] at h
  have hperm := perm_known_of_examineAll (.of_eq (List.append_nil _).symm) h
  exact (hperm.nodup (SortedSet.nodup _)).of_append_right

/-- A pass keeps the clauses apart: its findings are new, and are found once. -/
theorem Stage.Invariant.nodup_next (hst : st.Invariant F)
    (hnodup : (st.processed ++ st.frontier).Nodup) (h : pass st = .ok k) :
    ((st.next k h).processed ++ (st.next k h).frontier).Nodup := by
  refine List.nodup_append.mpr ⟨hnodup, List.nodup_reverse.mpr (nodup_found_of_pass h), ?_⟩
  rintro c hc d hd rfl
  exact ((sound_pass h).found_new c (List.mem_reverse.mp hd)).2 ((hst.mem_known c).mpr hc)

theorem Stage.Invariant.informative (hst : st.Invariant F) (hc : c ∈ st.processed ++ st.frontier) :
    F.Informative c := by
  obtain ⟨hderived, hne⟩ := hst.derived c ((hst.mem_known c).mpr hc)
  refine ⟨hne, Clause.isTautology_eq_false.mp hderived.isTautology, fun v hv => ?_⟩
  obtain ⟨l, hl, rfl⟩ := Clause.mem_vars.mp hv
  exact hderived.var_mem hl

/-- What the head of a pass knows: the processed clauses and those of the frontier, each listed
once, all of which say something about the variables of the formula, and among them what any two
processed clauses say together. -/
structure Stage.Tidy (F : Formula) (st : Stage U) : Prop where
  nodup_processed : st.processed.Nodup
  nodup_frontier : st.frontier.Nodup
  disjoint : st.processed.Disjoint st.frontier
  mem_known_iff : ∀ c, c ∈ st.known ↔ c ∈ st.processed ∨ c ∈ st.frontier
  informative : ∀ c ∈ st.known, F.Informative c
  resolvent_mem : ∀ c ∈ st.processed, ∀ d ∈ st.processed, ∀ v r, Clause.IsResolvent v c d r →
    r.IsConsistent → r ∈ st.known

theorem Stage.Invariant.tidy (hst : st.Invariant F)
    (hnodup : (st.processed ++ st.frontier).Nodup) : st.Tidy F where
  nodup_processed := hnodup.of_append_left
  nodup_frontier := hnodup.of_append_right
  disjoint := List.disjoint_of_nodup_append hnodup
  mem_known_iff c := (hst.mem_known c).trans List.mem_append
  informative c hc := hst.informative ((hst.mem_known c).mp hc)
  resolvent_mem c hc d hd v r hr hcon := by
    obtain ⟨hp, hn, rfl⟩ := Clause.isResolvent_iff.mp hr
    exact hst.resolvent_mem c hc d hd v hp hn (Clause.isTautology_eq_false.mpr hcon)

theorem tidy_of_mem_heads (hst : st.Invariant F) (hnodup : (st.processed ++ st.frontier).Nodup)
    {head : Stage U} (h : head ∈ (course st).heads) : head.Tidy F := by
  induction st using Stage.induction with
  | finished st hnil =>
      rw [course_of_nil hnil] at h
      cases h
  | refuted st q hne hq =>
      rw [course_of_error hne hq] at h
      rw [List.mem_singleton.mp h]
      exact hst.tidy hnodup
  | next st k hne hk ih =>
      rw [course_of_ok hne hk] at h
      rcases List.mem_cons.mp h with rfl | h
      · exact hst.tidy hnodup
      · exact ih (hst.next hk) (hst.nodup_next hnodup hk) h

theorem Stage.Invariant.length_lt (hst : st.Invariant F)
    (hnodup : (st.processed ++ st.frontier).Nodup) :
    st.processed.length + st.frontier.length < 3 ^ F.vars.size := by
  rw [← List.length_append]
  exact Formula.length_lt_of_informative hnodup fun c hc => hst.informative hc

/-- Each pass takes a clause out of the frontier, and there are less than `3 ^ n` to take. -/
theorem length_heads_add_lt (hst : st.Invariant F)
    (hnodup : (st.processed ++ st.frontier).Nodup) :
    (course st).heads.length + st.processed.length < 3 ^ F.vars.size := by
  have hlt := hst.length_lt hnodup
  induction st using Stage.induction with
  | finished st hnil =>
      rw [course_of_nil hnil, List.length_nil]
      omega
  | refuted st q hne hq =>
      have hpos := List.length_pos_iff.mpr hne
      rw [course_of_error hne hq, List.length_singleton]
      omega
  | next st k hne hk ih =>
      have hpos := List.length_pos_iff.mpr hne
      have hnext := hst.next hk
      have hnodup' := hst.nodup_next hnodup hk
      have hlater := ih hnext hnodup' (hnext.length_lt hnodup')
      have hprocessed : (st.next k hk).processed.length =
          st.processed.length + st.frontier.length := List.length_append
      rw [course_of_ok hne hk, List.length_cons]
      omega

/-! ### Each pair once -/

/-- Any two different clauses of a list were resolved with each other once, and no others. -/
structure ResolvedOnce (cs : List Clause) (calls : List (Clause × Clause)) : Prop where
  count_add_count : ∀ c ∈ cs, ∀ d ∈ cs, c ≠ d → calls.count (c, d) + calls.count (d, c) = 1
  mem_and_ne : ∀ p ∈ calls, p.1 ∈ cs ∧ p.2 ∈ cs ∧ p.1 ≠ p.2

variable {cs cs' processed frontier : List Clause} {calls calls' : List (Clause × Clause)}

theorem ResolvedOnce.congr (h : ResolvedOnce cs calls) (hcs : ∀ c, c ∈ cs ↔ c ∈ cs')
    (hcalls : calls.Perm calls') : ResolvedOnce cs' calls' where
  count_add_count c hc d hd hne := by
    rw [← hcalls.count_eq, ← hcalls.count_eq]
    exact h.count_add_count c ((hcs c).mpr hc) d ((hcs d).mpr hd) hne
  mem_and_ne p hp := by
    rw [← hcs, ← hcs]
    exact h.mem_and_ne p (hcalls.mem_iff.mpr hp)

theorem count_map_pair (b c d : Clause) (cs : List Clause) :
    (cs.map (b, ·)).count (c, d) = if c = b then cs.count d else 0 := by
  split
  · next h =>
      rw [h]
      exact List.count_map_of_injective cs (b, ·) (fun _ _ h => (Prod.mk.inj h).2) d
  · next h =>
      rw [List.count_eq_zero, List.mem_map]
      rintro ⟨x, -, heq⟩
      exact h (Prod.mk.inj heq).1.symm

/-- One more clause, resolved with all of the others. -/
theorem ResolvedOnce.cons {b : Clause} (h : ResolvedOnce cs calls) (hb : (b :: cs).Nodup) :
    ResolvedOnce (b :: cs) (cs.map (b, ·) ++ calls) := by
  obtain ⟨hb, hcs⟩ := List.nodup_cons.mp hb
  have hfresh : ∀ c d, c = b ∨ d = b → calls.count (c, d) = 0 := by
    rintro c d hcd
    rw [List.count_eq_zero]
    intro hmem
    obtain ⟨hc, hd, -⟩ := h.mem_and_ne _ hmem
    rcases hcd with rfl | rfl
    · exact hb hc
    · exact hb hd
  have hone : ∀ d ∈ cs, cs.count d = 1 := fun d hd => List.count_eq_one_of_mem hcs hd
  constructor
  · intro c hc d hd hne
    simp only [List.count_append, count_map_pair]
    rcases List.mem_cons.mp hc with rfl | hc'
    · have hd' := (List.mem_cons.mp hd).resolve_left hne.symm
      rw [if_pos rfl, if_neg hne.symm, hone d hd', hfresh c d (.inl rfl), hfresh d c (.inr rfl)]
    · rcases List.mem_cons.mp hd with rfl | hd'
      · rw [if_pos rfl, if_neg hne, hone c hc', hfresh c d (.inr rfl), hfresh d c (.inl rfl)]
      · have hcb : c ≠ b := fun heq => hb (heq ▸ hc')
        have hdb : d ≠ b := fun heq => hb (heq ▸ hd')
        rw [if_neg hcb, if_neg hdb, Nat.zero_add, Nat.zero_add]
        exact h.count_add_count c hc' d hd' hne
  · intro p hp
    rcases List.mem_append.mp hp with hp | hp
    · obtain ⟨d, hd, rfl⟩ := List.mem_map.mp hp
      refine ⟨List.mem_cons_self, List.mem_cons_of_mem b hd, fun heq => hb ?_⟩
      rwa [show b = d from heq]
    · obtain ⟨hc, hd, hne⟩ := h.mem_and_ne p hp
      exact ⟨List.mem_cons_of_mem b hc, List.mem_cons_of_mem b hd, hne⟩

theorem ResolvedOnce.append_pairs (h : ResolvedOnce processed calls)
    (hnodup : (processed ++ frontier).Nodup) :
    ResolvedOnce (processed ++ frontier) (calls ++ pairs processed frontier) := by
  induction frontier with
  | nil => rwa [pairs, List.append_nil, List.append_nil]
  | cons b cs ih =>
      have hb := List.nodup_middle.mp hnodup
      refine ((ih (List.nodup_cons.mp hb).2).cons hb).congr (fun c => ?_) ?_
      · exact List.perm_middle.symm.mem_iff
      · rw [pairs]
        exact List.perm_append_comm_assoc _ _ _

theorem resolvedOnce_course (hst : st.Invariant F) (hnodup : (st.processed ++ st.frontier).Nodup)
    (h : ResolvedOnce st.processed calls) {S : SortedSet Clause}
    (hS : (run st).result = some S) : ResolvedOnce S.toList (calls ++ (course st).calls) := by
  induction st using Stage.induction generalizing calls with
  | finished st hnil =>
      rw [run_of_nil hnil] at hS
      cases hS
      rw [course_of_nil hnil, List.append_nil]
      refine h.congr (fun c => ?_) (List.Perm.refl calls)
      rw [SortedSet.mem_toList, SortedSet.mem_ofTree, hst.mem_known, hnil, List.append_nil]
  | refuted st q hne hq =>
      rw [run_of_error hne hq] at hS
      cases hS
  | next st k hne hk ih =>
      rw [run_of_ok hne hk] at hS
      rw [course_of_ok hne hk, ← List.append_assoc]
      exact ih (hst.next hk) (hst.nodup_next hnodup hk) (h.append_pairs hnodup) hS

/-! ### From the first stage on -/

theorem nodup_start (F : Formula) : ((start F).processed ++ (start F).frontier).Nodup :=
  nodup_distinct

theorem tidy_of_mem_courseOf {st : Stage (literalsOf F)} (h : st ∈ (courseOf F).heads) :
    st.Tidy F := by
  cases hempty : F.hasEmptyClause with
  | true =>
      rw [courseOf_of_hasEmptyClause hempty] at h
      cases h
  | false =>
      rw [courseOf_of_not_hasEmptyClause hempty] at h
      exact tidy_of_mem_heads (.start hempty) (nodup_start F) h

/-- Saturation comes to an end after less than `3 ^ n` passes for `n` variables, and reports each of
them, unless the empty clause is there from the start.  Each pass starts from clauses that are
listed once and say something, and knows what any two processed clauses say together.  If a set of
clauses is left at the end, then any two of them were resolved with each other once in the whole
run, and nothing else was resolved. -/
theorem courseOf_resolves_once (F : Formula) :
    (courseOf F).result = saturate F ∧
    (∅ ∉ F → (courseOf F).heads.length = (saturate F).log.length) ∧
    (∀ st ∈ (courseOf F).heads, st.Tidy F) ∧
    (∀ S, (saturate F).result = some S → ResolvedOnce S.toList (courseOf F).calls) ∧
    (courseOf F).heads.length ≤ 3 ^ F.vars.size - 1 := by
  refine ⟨result_courseOf F, length_heads_courseOf, fun st => tidy_of_mem_courseOf, ?_⟩
  cases hempty : F.hasEmptyClause with
  | true =>
      rw [courseOf_of_hasEmptyClause hempty, saturate_of_hasEmptyClause hempty]
      exact ⟨nofun, Nat.zero_le _⟩
  | false =>
      rw [courseOf_of_not_hasEmptyClause hempty, saturate_of_not_hasEmptyClause hempty]
      have hst := Stage.Invariant.start hempty
      have hnone : ResolvedOnce (start F).processed [] :=
        ⟨fun c hc => absurd hc List.not_mem_nil, fun p hp => absurd hp List.not_mem_nil⟩
      have hlt := length_heads_add_lt hst (nodup_start F)
      exact ⟨fun S => resolvedOnce_course hst (nodup_start F) hnone, by omega⟩

end Saturation

end Clausal
