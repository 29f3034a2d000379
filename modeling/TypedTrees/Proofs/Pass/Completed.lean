import Mathlib.Data.List.Nodup
import Mathlib.Data.List.Range
import TypedTrees.Proofs.Pass.Reaches
/-!
The replacements that a run gets through. `Pass.Completes` tells them: a node, the tree given in its
place, and what that tree has become. A pass that makes an entry in a log whenever it is told of
such a replacement, and none otherwise, makes exactly one for each, in the order in which they are
completed, and so those made inside a replacement before that of the replacement itself
(`Pass.transform_records`). This holds of a run that fails as well.
-/
namespace TypedTrees

namespace Pass

/-- A tree given in place of a node that was entered from `depth`, the state it was taken up in,
what became of it, and the state after that. -/
structure Replacement (σ : Type) where
  depth : Nat
  node : Node
  next : Node
  start : σ
  out : Node
  finish : σ

variable {σ τ : Type}

/-- What the pass makes of a node, one level below a depth and in a state, includes this
replacement, and the pass gets through it. -/
inductive Completes (pass : Pass σ) (limit : Nat) (r : Replacement σ) : Nat → Node → σ → Prop
  | here {state : σ} (entered : r.depth < limit)
      (decides : pass.visit (r.depth + 1) r.node state = (.ok (.replace r.next), r.start))
      (carried : pass.transform limit (r.depth + 1) r.next r.start = (.ok r.out, r.finish)) :
      Completes pass limit r r.depth r.node state
  | inside {depth : Nat} {node next : Node} {state middle : σ} (entered : depth < limit)
      (decides : pass.visit (depth + 1) node state = (.ok (.replace next), middle))
      (below : Completes pass limit r (depth + 1) next middle) :
      Completes pass limit r depth node state
  | child {depth : Nat} {node child : Node} {before rest outs : List Node} {state middle after : σ}
      (entered : depth < limit)
      (decides : pass.visit (depth + 1) node state = (.ok .descend, middle))
      (children : node.expr.children = before ++ child :: rest)
      (earlier : pass.transformAll limit (depth + 1) before middle = (.ok outs, after))
      (below : Completes pass limit r (depth + 1) child after) :
      Completes pass limit r depth node state

/-- What the pass makes of several nodes in turn includes this replacement. -/
def CompletesAmong (pass : Pass σ) (limit : Nat) (r : Replacement σ) (depth : Nat)
    (nodes : List Node) (state : σ) : Prop :=
  ∃ before node rest outs after, nodes = before ++ node :: rest ∧
    pass.transformAll limit depth before state = (.ok outs, after) ∧
      Completes pass limit r depth node after

variable {pass : Pass σ} {limit depth : Nat} {node : Node} {state middle : σ} {r : Replacement σ}

theorem Completes.entered (completes : Completes pass limit r depth node state) :
    depth < limit := by
  cases completes <;> assumption

/-- A replacement that is completed is one at a node that the run takes up. -/
theorem Completes.reached {start : Nat} {root : Node} {first : σ} {scope : List (List Parameter)}
    (completes : Completes pass limit r depth node state)
    (reach : Reaches pass limit start root first depth scope node state) :
    ∃ scope state, Reaches pass limit start root first r.depth scope r.node state ∧
      pass.visit (r.depth + 1) r.node state = (.ok (.replace r.next), r.start) ∧
        pass.transform limit r.depth r.node state =
          (.ok r.out, pass.replaced r.depth r.node r.out r.finish) := by
  induction completes generalizing scope with
  | here entered decides carried =>
    refine ⟨scope, _, reach, decides, ?_⟩
    rw [transform_entered pass entered, decides, onward, carryOut, carried, onward]
  | inside entered decides _ ih => exact ih (.replaced reach entered decides)
  | child entered decides children earlier _ ih =>
    exact ih (.child reach entered decides children earlier)

theorem completes_replace_iff {next : Node} (entered : depth < limit)
    (decides : pass.visit (depth + 1) node state = (.ok (.replace next), middle)) :
    Completes pass limit r depth node state ↔ Completes pass limit r (depth + 1) next middle ∨
      ∃ out finish, pass.transform limit (depth + 1) next middle = (.ok out, finish) ∧
        r = ⟨depth, node, next, middle, out, finish⟩ := by
  constructor
  · intro completes
    cases completes with
    | here _ decides' carried =>
      cases decides.symm.trans decides'
      exact .inr ⟨r.out, r.finish, carried, rfl⟩
    | inside _ decides' below =>
      cases decides.symm.trans decides'
      exact .inl below
    | child _ decides' => cases decides.symm.trans decides'
  · rintro (below | ⟨out, finish, carried, rfl⟩)
    · exact .inside entered decides below
    · exact .here (r := ⟨depth, node, next, middle, out, finish⟩) entered decides carried

theorem completes_descend_iff (entered : depth < limit)
    (decides : pass.visit (depth + 1) node state = (.ok .descend, middle)) :
    Completes pass limit r depth node state ↔
      CompletesAmong pass limit r (depth + 1) node.expr.children middle := by
  constructor
  · intro completes
    cases completes with
    | here _ decides' => cases decides.symm.trans decides'
    | inside _ decides' => cases decides.symm.trans decides'
    | child _ decides' children earlier below =>
      cases decides.symm.trans decides'
      exact ⟨_, _, _, _, _, children, earlier, below⟩
  · rintro ⟨before, child, rest, outs, after, children, earlier, below⟩
    exact .child entered decides children earlier below

/-- Nothing is replaced where the pass does not decide to replace or to go on. -/
theorem Completes.decides (completes : Completes pass limit r depth node state) :
    ∃ decision after, pass.visit (depth + 1) node state = (.ok decision, after) ∧
      ∀ out, decision ≠ .done out := by
  cases completes with
  | here _ decides => exact ⟨_, _, decides, fun _ is => by cases is⟩
  | inside _ decides => exact ⟨_, _, decides, fun _ is => by cases is⟩
  | child _ decides => exact ⟨_, _, decides, fun _ is => by cases is⟩

theorem not_completesAmong_nil : ¬CompletesAmong pass limit r depth [] state := by
  rintro ⟨before, _, _, _, _, nodes, -⟩
  cases before <;> cases nodes

theorem completesAmong_cons_iff {nodes : List Node} :
    CompletesAmong pass limit r depth (node :: nodes) state ↔
      Completes pass limit r depth node state ∨
        ∃ out after, pass.transform limit depth node state = (.ok out, after) ∧
          CompletesAmong pass limit r depth nodes after := by
  constructor
  · rintro ⟨_ | ⟨first, before⟩, child, rest, outs, after, nodes, earlier, below⟩
    · rw [transformAll] at earlier
      cases nodes
      cases earlier
      exact .inl below
    · cases nodes
      rw [transformAll_cons] at earlier
      obtain ⟨out, middle, first, others⟩ := onward_eq_ok earlier
      obtain ⟨outs, last, others, made⟩ := onward_eq_ok others
      cases made
      exact .inr ⟨out, middle, first, before, child, rest, outs, after, rfl, others, below⟩
  · rintro (here | ⟨out, middle, first, before, child, rest, outs, after, rfl, earlier, below⟩)
    · exact ⟨[], node, nodes, [], state, rfl, by rw [transformAll], here⟩
    · refine ⟨node :: before, child, rest, out :: outs, after, rfl, ?_, below⟩
      rw [transformAll_cons, first, onward, earlier, onward]

/-- The replacements that `completes` tells are listed in the order of their completion, and between
the two states there is one entry for each in the log, in the same order: when one of them is
completed, the entries are those of the replacements listed before it, and the last of these are the
ones inside it. -/
structure Records (pass : Pass σ) (limit : Nat) (log : σ → List τ) (note : Replacement σ → τ)
    (completes : Replacement σ → Prop) (first last : σ) (rs : List (Replacement σ)) : Prop where
  exactly : ∀ r, r ∈ rs ↔ completes r
  logged : log last = log first ++ rs.map note
  order : ∀ earlier r later, rs = earlier ++ r :: later →
    log r.finish = log first ++ earlier.map note ∧
      ∃ before during, earlier = before ++ during ∧ log r.start = log first ++ before.map note ∧
        ∀ inner, inner ∈ during ↔ Completes pass limit inner (r.depth + 1) r.next r.start

namespace Records

variable {log : σ → List τ} {note : Replacement σ → τ} {completes others : Replacement σ → Prop}
  {first last : σ} {rs more : List (Replacement σ)}

theorem nil (none : ∀ r, ¬completes r) (same : log last = log first) :
    Records pass limit log note completes first last [] where
  exactly r := by simp only [List.not_mem_nil, none r]
  logged := by rw [same, List.map_nil, List.append_nil]
  order earlier r later split := by cases earlier <;> cases split

theorem congr (records : Records pass limit log note completes first last rs)
    (same : ∀ r, others r ↔ completes r) (states : log last = log middle) :
    Records pass limit log note others first middle rs :=
  ⟨fun r => (records.exactly r).trans (same r).symm, states ▸ records.logged, records.order⟩

/-- One stretch of a run after another. -/
theorem append (here : Records pass limit log note completes first middle rs)
    (onward : Records pass limit log note others middle last more) :
    Records pass limit log note (fun r => completes r ∨ others r) first last (rs ++ more) where
  exactly r := by rw [List.mem_append, here.exactly, onward.exactly]
  logged := by rw [onward.logged, here.logged, List.map_append, List.append_assoc]
  order earlier r later split := by
    rcases List.append_eq_append_iff.mp split.symm with
      ⟨between, inFirst, rest⟩ | ⟨between, rfl, inSecond⟩
    · cases between with
      | nil =>
        -- the first of the second stretch
        rw [List.append_nil] at inFirst
        obtain ⟨finished, before, during, empty, started, inside⟩ :=
          onward.order [] r later rest.symm
        obtain ⟨rfl, rfl⟩ := List.append_eq_nil_iff.mp empty.symm
        rw [here.logged, List.map_nil, List.append_nil] at finished started
        subst inFirst
        exact ⟨finished, rs, [], (List.append_nil rs).symm, started, inside⟩
      | cons _ between =>
        cases rest
        exact here.order earlier r between inFirst
    · obtain ⟨finished, before, during, rfl, started, inside⟩ :=
        onward.order between r later inSecond
      rw [here.logged, List.append_assoc, ← List.map_append] at finished started
      exact ⟨finished, rs ++ before, during, (List.append_assoc _ _ _).symm, started, inside⟩

/-- A replacement is noted after those inside it. -/
theorem snoc {out : Node} {finish : σ} {next : Node}
    (inside : Records pass limit log note
      (fun r => Completes pass limit r (depth + 1) next middle) middle finish rs)
    (same : log middle = log first)
    (noted : log last = log finish ++ [note ⟨depth, node, next, middle, out, finish⟩]) :
    Records pass limit log note
      (fun r => Completes pass limit r (depth + 1) next middle ∨
        r = ⟨depth, node, next, middle, out, finish⟩)
      first last (rs ++ [⟨depth, node, next, middle, out, finish⟩]) where
  exactly r := by rw [List.mem_append, inside.exactly, List.mem_singleton]
  logged := by
    rw [noted, inside.logged, same, List.map_append, List.append_assoc, List.map_singleton]
  order earlier r later split := by
    rcases List.eq_nil_or_concat later with rfl | ⟨later, final, rfl⟩
    · obtain ⟨rfl, last⟩ := List.append_inj' split rfl
      cases last
      refine ⟨same ▸ inside.logged, [], rs, rfl, ?_, inside.exactly⟩
      rw [same, List.map_nil, List.append_nil]
    · rw [List.concat_eq_append, ← List.cons_append, ← List.append_assoc] at split
      rw [← same]
      exact inside.order earlier r later (List.append_inj' split rfl).1

/-- No replacement is listed twice, as each is completed when the log has another length. -/
theorem nodup (records : Records pass limit log note completes first last rs) : rs.Nodup := by
  have lengths : rs.map (fun r => (log r.finish).length) =
      List.range' (log first).length rs.length := by
    refine List.ext_getElem (by simp only [List.length_map, List.length_range']) ?_
    intro place bound _
    rw [List.length_map] at bound
    have split : rs = rs.take place ++ rs[place] :: rs.drop (place + 1) := by
      rw [List.getElem_cons_drop, List.take_append_drop]
    obtain ⟨finished, -⟩ := records.order _ _ _ split
    rw [List.getElem_map, List.getElem_range', finished, List.length_append, List.length_map,
      List.length_take, Nat.min_eq_left (Nat.le_of_lt bound), Nat.one_mul]
  exact List.Nodup.of_map _ (lengths ▸ List.nodup_range')

end Records

section Run

variable {log : σ → List τ} {note : Replacement σ → τ}
  (visit : ∀ depth node state, log (pass.visit depth node state).2 = log state)
  (draw : ∀ state, log (pass.draw state).2 = log state)
  (noted : ∀ (r : Replacement σ) state,
    pass.visit (r.depth + 1) r.node state = (.ok (.replace r.next), r.start) →
      log (pass.replaced r.depth r.node r.out r.finish) = log r.finish ++ [note r])

theorem transformAll_records
    (one : ∀ node state, ∃ rs, Records pass limit log note
      (fun r => Completes pass limit r depth node state) state
      (pass.transform limit depth node state).2 rs) (nodes : List Node) (state : σ) :
    ∃ rs, Records pass limit log note (fun r => CompletesAmong pass limit r depth nodes state) state
      (pass.transformAll limit depth nodes state).2 rs := by
  induction nodes generalizing state with
  | nil =>
    refine ⟨[], .nil (fun _ => not_completesAmong_nil) ?_⟩
    rw [transformAll]
  | cons node nodes ih =>
    obtain ⟨rs, here⟩ := one node state
    rw [transformAll_cons]
    rcases first : pass.transform limit depth node state with ⟨e | out, after⟩
    · rw [first] at here
      refine ⟨rs, here.congr (fun r => ?_) rfl⟩
      simp only [completesAmong_cons_iff, first, Prod.mk.injEq, reduceCtorEq, false_and,
        exists_false, or_false]
    · rw [first] at here
      obtain ⟨more, others⟩ := ih after
      refine ⟨rs ++ more, (here.append others).congr (fun r => ?_) ?_⟩
      · rw [completesAmong_cons_iff, first]
        refine or_congr_right ⟨?_, fun among => ⟨out, after, rfl, among⟩⟩
        rintro ⟨_, _, same, among⟩
        cases same
        exact among
      · simp only [onward]
        rcases pass.transformAll limit depth nodes after with ⟨e | outs, last⟩ <;> rfl

include visit draw noted in
/-- A log in which a pass makes an entry when it is told that it is through with a replacement, and
at no other time, has one entry for each replacement that the pass gets through, in the order of
their completion, whether the run succeeds or not. -/
theorem transform_records (depth : Nat) (node : Node) (state : σ) :
    ∃ rs, Records pass limit log note (fun r => Completes pass limit r depth node state) state
      (pass.transform limit depth node state).2 rs := by
  -- a replacement need not be smaller than the node, so the induction is on the levels left
  induction levels : limit - depth generalizing depth node state with
  | zero =>
    refine ⟨[], .nil (fun r completes => ?_) ?_⟩
    · have := completes.entered
      omega
    · rw [transform, if_pos (by omega)]
  | succ room ih =>
    have entered : depth < limit := by omega
    have visited := visit (depth + 1) node state
    rw [transform_entered pass entered]
    rcases decides : pass.visit (depth + 1) node state with ⟨e | decision, middle⟩
    · rw [decides] at visited
      refine ⟨[], .nil (fun r completes => ?_) visited⟩
      obtain ⟨_, _, decides', -⟩ := completes.decides
      cases decides.symm.trans decides'
    rw [decides] at visited
    simp only [onward]
    cases decision with
    | done out =>
      refine ⟨[], .nil (fun r completes => ?_) visited⟩
      obtain ⟨_, _, decides', other⟩ := completes.decides
      cases decides.symm.trans decides'
      exact other out rfl
    | replace next =>
      obtain ⟨rs, inside⟩ := ih (depth + 1) next middle (by omega)
      rw [carryOut]
      rcases carried : pass.transform limit (depth + 1) next middle with ⟨e | out, finish⟩
      · rw [carried] at inside
        have before : Records pass limit log note (fun _ => False) state middle [] :=
          .nil (fun _ => id) visited
        refine ⟨rs, (before.append inside).congr (fun r => ?_) rfl⟩
        simp only [completes_replace_iff entered decides, carried, Prod.mk.injEq, reduceCtorEq,
          false_and, exists_false, or_false, false_or]
      · rw [carried] at inside
        refine ⟨_, (inside.snoc visited
          (noted ⟨depth, node, next, middle, out, finish⟩ state decides)).congr (fun r => ?_) rfl⟩
        rw [completes_replace_iff entered decides, carried]
        refine or_congr_right ⟨?_, fun same => ⟨out, finish, rfl, same⟩⟩
        rintro ⟨_, _, same, is⟩
        cases same
        exact is
    | descend =>
      obtain ⟨rs, among⟩ := transformAll_records (fun node state =>
        ih (depth + 1) node state (by omega)) node.expr.children middle
      have before : Records pass limit log note (fun _ => False) state middle [] :=
        .nil (fun _ => id) visited
      refine ⟨rs, (before.append among).congr (fun r => ?_) ?_⟩
      · rw [completes_descend_iff entered decides, false_or]
      · rw [carryOut]
        rcases pass.transformAll limit (depth + 1) node.expr.children middle with
          ⟨e | kids, last⟩
        · rfl
        · exact @rebuild_respects _ pass (fun before after => log before = log after)
            (fun _ => rfl) (fun state => (draw state).symm) node kids last

end Run

end Pass

end TypedTrees
