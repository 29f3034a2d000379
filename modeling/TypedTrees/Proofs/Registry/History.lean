import Mathlib
import TypedTrees.Proofs.Registry.Watched
/-!
Registries over time. A `Watched.History` enters functions, removes them and looks them up in any
order, with bodies that never look their own function up. At every moment of such a history each
registry is a map from functions, told by identity, to the bodies that were entered for them last,
each with the lambda that has been captured from it if any has, and its entries' accounts say how
often the bodies were run (`Watched.History.is_map`).
-/
namespace TypedTrees

/-- The registry has entries for these functions, no two of one identity. -/
structure Registry.Maps (registry : Registry) (functions : List Function) : Prop where
  distinct : (functions.map Function.id).Nodup
  contains : ∀ f, registry.contains f = functions.any fun g => g.same f
  size : registry.size = functions.length
  empty : (registry.size == 0) = true ↔ ∀ f, registry.contains f = false
  names : registry.names.Perm (functions.map Function.name)
  sorted : registry.names.Pairwise (· ≤ ·)

namespace Session

variable {number : Nat} {f : Function} {body : Body} {session : Session}

/-- A function has been entered with a body: nothing is captured for it, its body has not been run,
and all other entries are what they were. -/
structure Enters (number : Nat) (f : Function) (body : Body) (key : Nat) (before after : Session) :
    Prop where
  entry : ∀ g, (after.registry number).find? g =
    if f.same g then some { key, function := f, body } else (before.registry number).find? g
  others : ∀ other, other ≠ number → after.registry other = before.registry other
  runs : after.runs = before.runs
  unrun : after.runsOf key = 0

/-- A function's entry has been removed, and no other. -/
structure Removes (number : Nat) (f : Function) (before after : Session) : Prop where
  entry : ∀ g, (after.registry number).find? g =
    if f.same g then none else (before.registry number).find? g
  others : ∀ other, other ≠ number → after.registry other = before.registry other
  runs : after.runs = before.runs

/-- What a look-up comes to, case by case: one run of one body at most, and nothing kept but the
lambda of a capture that has succeeded. -/
inductive LooksUp (number : Nat) (f : Function) (before : Session) :
    Except Error (Option Lambda) × Session → Prop
  | unknown (absent : (before.registry number).find? f = none) :
      LooksUp number f before (.ok none, before)
  | kept {binding : Binding} {l : Lambda}
      (found : (before.registry number).find? f = some binding)
      (quoted : binding.quoted = some l) : LooksUp number f before (.ok (some l), before)
  | unfit {binding : Binding} {fault : SubstituteFault}
      (found : (before.registry number).find? f = some binding)
      (isUnfit : binding.function.substituteFault? = some fault) :
      LooksUp number f before (.error (.malformedSubstitute binding.function.name fault), before)
  | failed {binding : Binding} {e : Error} {after : Session}
      (found : (before.registry number).find? f = some binding)
      (unquoted : binding.quoted = none) (fits : binding.function.substituteFault? = none)
      (capture : binding.function.capture (entryRun before.keys binding) before =
        (.error e, after))
      (once : after.runsOf binding.key = before.runsOf binding.key + 1)
      (still : (after.registry number).find? f = some binding) (grows : Grows before after) :
      LooksUp number f before (.error e, after)
  | captured {binding : Binding} {l : Lambda} {middle after : Session}
      (found : (before.registry number).find? f = some binding)
      (unquoted : binding.quoted = none) (fits : binding.function.substituteFault? = none)
      (capture : binding.function.capture (entryRun before.keys binding) before =
        (.ok l, middle))
      (keeps : after = middle.setRegistry number ((middle.registry number).keep binding.key l))
      (once : after.runsOf binding.key = before.runsOf binding.key + 1)
      (now : (after.registry number).find? f = some { binding with quoted := some l })
      (grows : Grows before after) : LooksUp number f before (.ok (some l), after)

end Session

theorem Registry.maps {registry : Registry}
    (distinct : (registry.bindings.map fun binding => binding.function.id).Nodup) :
    registry.Maps (registry.bindings.map Binding.function) where
  distinct := by
    rw [List.map_map]
    exact distinct
  contains f := by
    rw [List.any_map, contains, find?, List.isSome_find?]
    rfl
  size := by rw [size, List.length_map]
  empty := by
    simp only [size, contains, find?, beq_iff_eq, List.length_eq_zero_iff,
      Option.isSome_eq_false_iff, Option.isNone_iff_eq_none, List.find?_eq_none]
    constructor
    · intro none f binding member
      rw [none] at member
      cases member
    · intro none
      refine List.eq_nil_iff_forall_not_mem.mpr fun binding member => ?_
      exact none binding.function binding member (by simp only [Function.same, BEq.rfl])
  names := by
    rw [names, List.map_map]
    exact List.mergeSort_perm _ _
  sorted := by
    have sorted := @List.pairwise_mergeSort _ (fun s t : String => decide (s ≤ t))
      (fun a b c first second => by
        simp only [decide_eq_true_eq] at first second ⊢
        exact le_trans first second)
      (fun a b => by simpa using le_total a b)
      (registry.bindings.map fun binding => binding.function.name)
    exact sorted.imp fun le => of_decide_eq_true le

namespace Watched

/-- What has been done with the registries of a session, with every look-up watched. Bodies draw
nothing but onward, and no look-up waits. In between anything may happen that leaves the registries
alone. -/
inductive History : Watched → Prop
  | start (store : Store) (limit : Nat) : History { session := { store, limit } }
  | register {watched : Watched} (earlier : History watched) (number : Nat) (f : Function)
      {body : Body} (onward : body.DrawsOnward) :
      History { watched with session := (watched.session.register number f body).2 }
  | registerNew {watched : Watched} (earlier : History watched) (number : Nat) (f : Function)
      {body : Body} (onward : body.DrawsOnward) :
      History { watched with session := (watched.session.registerNew number f body).2 }
  | unregister {watched : Watched} (earlier : History watched) (number : Nat) (f : Function) :
      History { watched with session := (watched.session.unregister number f).2 }
  | quotedBody {watched : Watched} (earlier : History watched) (number : Nat) (f : Function)
      (straight : (watched.session.quotedBody number f).2.waits = false) :
      History (watched.quotedBody number f).2
  | meanwhile {watched : Watched} {session : Session} (earlier : History watched)
      (registries : session.registry = watched.session.registry)
      (runs : session.runs = watched.session.runs)
      (onward : watched.session.supply.next ≤ session.supply.next)
      (straight : session.waits = false) : History { watched with session }

/-- The entries of all registries, without the lambdas that are kept. -/
def blank (watched : Watched) (number : Nat) : List Binding :=
  (watched.session.registry number).blank

/-- The entries are orderly, and their accounts are in order. -/
structure InOrder (watched : Watched) : Prop where
  orderly : Orderly watched.blank watched.session.supply.next
  sound : watched.Sound watched.blank watched.session.supply.next watched.session.keys

theorem Orderly.sublist {blank blank' : Nat → List Binding} {bound bound' : Nat}
    (orderly : Orderly blank bound) (fewer : ∀ number, (blank' number).Sublist (blank number))
    (onward : bound ≤ bound') : Orderly blank' bound' where
  keys number := (orderly.keys number).sublist ((fewer number).map _)
  apart number other a inA b inB :=
    orderly.apart number other a ((fewer number).subset inA) b ((fewer other).subset inB)
  functions number := (orderly.functions number).sublist ((fewer number).map _)
  onward number binding member := orderly.onward number binding ((fewer number).subset member)
  below number binding member :=
    Nat.lt_of_lt_of_le (orderly.below number binding ((fewer number).subset member)) onward

/-- A new entry with a key of its own, of a function that has none in the registry. -/
theorem Orderly.append {blank blank' : Nat → List Binding} {bound : Nat}
    (orderly : Orderly blank bound) (number : Nat) (binding : Binding) (key : binding.key = bound)
    (absent : ∀ entry ∈ blank number, entry.function.id ≠ binding.function.id)
    (onward : binding.body.DrawsOnward) (here : blank' number = blank number ++ [binding])
    (others : ∀ other, other ≠ number → blank' other = blank other) :
    Orderly blank' (bound + 1) := by
  have cases : ∀ {other entry}, entry ∈ blank' other →
      entry ∈ blank other ∨ other = number ∧ entry = binding := by
    intro other entry member
    by_cases same : other = number
    · subst same
      rw [here, List.mem_append, List.mem_singleton] at member
      exact member.imp id fun last => ⟨rfl, last⟩
    · exact .inl (others other same ▸ member)
  have differs : ∀ {other entry}, entry ∈ blank other → entry.key ≠ binding.key := by
    intro other entry member same
    have below := orderly.below other entry member
    omega
  refine ⟨fun other => ?_, fun first second a inA b inB same => ?_, fun other => ?_,
    fun other entry member => ?_, fun other entry member => ?_⟩
  · by_cases same : other = number
    · subst same
      rw [here, List.map_append, List.map_singleton]
      refine (orderly.keys other).append (List.nodup_singleton _) fun k inOld inNew => ?_
      obtain ⟨entry, member, rfl⟩ := List.mem_map.mp inOld
      exact differs member (List.mem_singleton.mp inNew)
    · rw [others other same]
      exact orderly.keys other
  · rcases cases inA with oldA | ⟨rfl, rfl⟩ <;> rcases cases inB with oldB | ⟨rfl, rfl⟩
    · exact orderly.apart first second a oldA b oldB same
    · exact absurd same (differs oldA)
    · exact absurd same.symm (differs oldB)
    · rfl
  · by_cases same : other = number
    · subst same
      rw [here, List.map_append, List.map_singleton]
      refine (orderly.functions other).append (List.nodup_singleton _) fun id inOld inNew => ?_
      obtain ⟨entry, member, rfl⟩ := List.mem_map.mp inOld
      exact absent entry member (List.mem_singleton.mp inNew)
    · rw [others other same]
      exact orderly.functions other
  · rcases cases member with old | ⟨-, rfl⟩
    · exact orderly.onward other entry old
    · exact onward
  · rcases cases member with old | ⟨-, rfl⟩
    · exact Nat.lt_succ_of_lt (orderly.below other entry old)
    · rw [key]
      exact Nat.lt_succ_self bound

theorem registry_start (store : Store) (limit number : Nat) :
    ({ store, limit } : Session).registry number = {} := by
  have none := @Session.bindings_of_fresh { store, limit } rfl number
  generalize ({ store, limit } : Session).registry number = registry at none
  cases registry
  exact congrArg Registry.mk none

end Watched

theorem Registry.blank_erase (registry : Registry) (f : Function) :
    (registry.erase f).blank = registry.blank.filter fun binding => !binding.function.same f := by
  simp only [blank, erase, List.filter_map]
  rfl

theorem Registry.blank_insert (registry : Registry) (binding : Binding) :
    (registry.insert binding).blank =
      (registry.erase binding.function).blank ++ [binding.blank] := by
  simp only [blank, insert, List.map_append, List.map_singleton]
  rfl

namespace Watched

/-- What is removed or newly entered leaves the accounts of the other entries in order. -/
theorem Sound.of_registries {watched : Watched} {session : Session} (inOrder : watched.InOrder)
    (runs : session.runs = watched.session.runs)
    (onward : watched.session.supply.next ≤ session.supply.next)
    (straight : session.waits = false)
    (entries : ∀ number, ∀ binding ∈ (session.registry number).bindings,
      binding ∈ (watched.session.registry number).bindings ∨
        binding.key = watched.session.supply.next ∧ binding.quoted = none) :
    ({ watched with session } : Watched).Sound (fun number => (session.registry number).blank)
      session.supply.next session.keys := by
  obtain ⟨orderly, sound⟩ := inOrder
  refine ⟨fun _ => rfl, Nat.le_refl _, fun key member => ?_, fun answer member => ?_, straight,
    fun number binding member => ?_⟩
  · exact Nat.lt_of_lt_of_le (sound.runs key (runs ▸ member)) onward
  · exact Nat.lt_of_lt_of_le (sound.answers answer member) onward
  · have sameRuns : session.runsOf binding.key = watched.session.runsOf binding.key := by
      rw [Session.runsOf, runs, Session.runsOf]
    rcases entries number binding member with old | ⟨key, unquoted⟩
    · exact (sound.live number binding old).congr
        (iff_of_true (Session.mem_keys member) (Session.mem_keys old)) sameRuns rfl
    · -- nothing has been taken down yet under the new key
      have noRuns : session.runsOf binding.key = 0 := by
        rw [sameRuns, Session.runsOf, List.count_eq_zero, key]
        exact fun ran => Nat.lt_irrefl _ (sound.runs _ ran)
      have noAnswers : ({ watched with session } : Watched).answersOf binding.key = [] := by
        rw [answersOf, List.map_eq_nil_iff, List.filter_eq_nil_iff, key]
        intro answer member same
        have below := sound.answers answer member
        rw [of_decide_eq_true same] at below
        exact Nat.lt_irrefl _ below
      refine .idle (Session.mem_keys member) ?_
      rw [noAnswers, unquoted]
      change binding.function.Account (session.runsOf binding.key) [] none
      rw [noRuns]
      cases isFit : binding.function.substituteFault? with
      | none => exact .uncaptured isFit (List.forall_mem_nil _)
      | some fault => exact .unfit isFit (List.forall_mem_nil _)

end Watched

namespace Session

variable (session : Session) (number : Nat) (f : Function) (body : Body)

theorem registry_register (other : Nat) :
    (session.register number f body).2.registry other =
      if other = number then
        (session.registry number).insert { key := session.supply.next, function := f, body }
      else session.registry other :=
  registry_setRegistry _ _ _ _

theorem registry_unregister (other : Nat) :
    (session.unregister number f).2.registry other =
      if other = number then (session.registry number).erase f else session.registry other :=
  registry_setRegistry _ _ _ _

theorem registerNew_eq : session.registerNew number f body =
    if (session.registry number).contains f then
      (.error (.invalidArgument (.alreadyRegistered f.name)), session)
    else (.ok session.supply.next, (session.register number f body).2) := rfl

theorem removes : session.Removes number f (session.unregister number f).2 where
  entry g := by rw [registry_unregister, if_pos rfl, Registry.find?_erase]
  others other differs := by rw [registry_unregister, if_neg differs]
  runs := rfl

end Session

namespace Watched

variable {watched : Watched}

theorem InOrder.erase (inOrder : watched.InOrder) (number : Nat) (f : Function) :
    Orderly (fun other =>
      if other = number then ((watched.session.registry number).erase f).blank
      else watched.blank other) watched.session.supply.next := by
  refine inOrder.orderly.sublist (fun other => ?_) (Nat.le_refl _)
  split
  · rename_i same
    rw [same, Registry.blank_erase]
    exact List.filter_sublist
  · exact .refl _

theorem InOrder.register (inOrder : watched.InOrder) (number : Nat) (f : Function) {body : Body}
    (onward : body.DrawsOnward) :
    ({ watched with session := (watched.session.register number f body).2 } : Watched).InOrder := by
  let binding : Binding := { key := watched.session.supply.next, function := f, body }
  constructor
  · refine (inOrder.erase number f).append number binding rfl (fun entry member => ?_) onward ?_
      fun other differs => ?_
    · rw [if_pos rfl, Registry.blank_erase] at member
      simpa [Function.same] using (List.mem_filter.mp member).2
    · rw [if_pos rfl, blank, Session.registry_register, if_pos rfl, Registry.blank_insert]
      rfl
    · rw [if_neg differs, blank, Session.registry_register, if_neg differs]
      rfl
  · refine .of_registries inOrder rfl (Nat.le_succ _) inOrder.sound.straight
      fun other entry member => ?_
    rw [Session.registry_register] at member
    split at member
    · rename_i same
      rcases List.mem_append.mp member with old | last
      · rw [same]
        exact .inl (List.mem_filter.mp old).1
      · rw [List.mem_singleton.mp last]
        exact .inr ⟨rfl, rfl⟩
    · exact .inl member

theorem InOrder.unregister (inOrder : watched.InOrder) (number : Nat) (f : Function) :
    ({ watched with session := (watched.session.unregister number f).2 } : Watched).InOrder := by
  constructor
  · refine (inOrder.erase number f).sublist (fun other => ?_) (Nat.le_refl _)
    rw [blank, Session.registry_unregister]
    split
    · exact .refl _
    · exact .refl _
  · refine .of_registries inOrder rfl (Nat.le_refl _) inOrder.sound.straight
      fun other entry member => ?_
    rw [Session.registry_unregister] at member
    split at member
    · rename_i same
      rw [same]
      exact .inl (List.mem_filter.mp member).1
    · exact .inl member

/-- A look-up that does not wait, nor leads to one that does, leaves everything in order. -/
theorem InOrder.quotedBody (inOrder : watched.InOrder) (number : Nat) (f : Function)
    (straight : (watched.session.quotedBody number f).2.waits = false) :
    (watched.quotedBody number f).2.InOrder := by
  rw [Session.quotedBody, lookUpWithin_session] at straight
  have sound := (lookUpWithin_proceeds inOrder.orderly _ number f watched).sound straight
    inOrder.sound
  have same : (watched.quotedBody number f).2.blank = watched.blank := funext sound.entries
  refine ⟨?_, ?_⟩
  · rw [same]
    exact inOrder.orderly.sublist (fun _ => .refl _) sound.onward
  · rw [same]
    refine ⟨sound.entries, Nat.le_refl _, sound.runs, sound.answers, straight,
      fun other entry member => ?_⟩
    obtain ⟨old, inOld, blanks⟩ := List.mem_map.mp (sound.mem_blank member)
    have keys : old.key = entry.key := Binding.key_eq_of_blank_eq blanks
    exact (sound.live other entry member).congr
      (iff_of_true (Session.mem_keys member) (keys ▸ Session.mem_keys inOld)) rfl rfl

/-- At every moment of a history the entries are orderly and their accounts in order. -/
theorem History.inOrder (history : watched.History) : watched.InOrder := by
  induction history with
  | start store limit =>
    have blank : ({ session := { store, limit } } : Watched).blank = fun _ => [] := by
      funext number
      rw [Watched.blank, registry_start]
      rfl
    constructor
    · rw [blank]
      exact ⟨fun _ => .nil, by simp, fun _ => .nil, by simp, by simp⟩
    · refine ⟨fun _ => rfl, Nat.le_refl _, by simp, by simp, rfl, fun number binding member => ?_⟩
      rw [registry_start] at member
      cases member
  | register _ number f onward ih => exact ih.register number f onward
  | @registerNew watched _ number f body onward ih =>
    rw [Session.registerNew_eq]
    split
    · exact ih
    · exact ih.register number f onward
  | unregister _ number f ih => exact ih.unregister number f
  | quotedBody _ number f straight ih => exact ih.quotedBody number f straight
  | @meanwhile watched session _ registries runs onward straight ih =>
    have same : ({ watched with session } : Watched).blank = watched.blank := by
      funext number
      rw [blank, blank, registries]
    constructor
    · rw [same]
      exact ih.orderly.sublist (fun _ => .refl _) onward
    · exact .of_registries ih runs onward straight
        fun number binding member => .inl (registries ▸ member)

/-- While the body of an entry has been run, the entry has stayed what it was. -/
theorem Sound.find?_ran {blank : Nat → List Binding} {bound : Nat} {idle : List Nat}
    {before after : Watched} {number : Nat} {f : Function} {binding : Binding}
    (sound : after.Sound blank bound (idle.removeAll [binding.key]))
    (same : (after.session.registry number).blank = (before.session.registry number).blank)
    (found : (before.session.registry number).find? f = some binding)
    (unquoted : binding.quoted = none) :
    (after.session.registry number).find? f = some binding := by
  obtain ⟨now, foundNow, same⟩ := Registry.find?_of_blank_eq same found
  cases sound.live number now (List.mem_of_find?_eq_some foundNow) with
  | idle still => exact absurd (Binding.key_eq_of_blank_eq same) (Session.mem_removeAll.mp still).2
  | underWay _ _ unquotedNow =>
    obtain ⟨key, function, body, quoted⟩ := now
    obtain ⟨key', function', body', quoted'⟩ := binding
    cases unquoted
    cases unquotedNow
    cases same
    exact foundNow

theorem InOrder.looksUp (inOrder : watched.InOrder) (number : Nat) (f : Function)
    (straight : (watched.session.quotedBody number f).2.waits = false) :
    watched.session.LooksUp number f (watched.session.quotedBody number f) := by
  obtain ⟨orderly, sound⟩ := inOrder
  have grows := Session.lookUpWithin_grows watched.session.keys number f watched.session
  have outcome := lookUpWithin_cases watched.session.keys number f watched
  rw [Session.quotedBody, lookUpWithin_session] at straight
  rw [lookUpWithin_session] at grows
  rw [Session.quotedBody, lookUpWithin_session]
  generalize watched.lookUpWithin watched.session.keys number f = result
    at straight grows outcome ⊢
  have nested := fun key =>
    lookUpWithin_proceeds orderly (watched.session.keys.removeAll [key])
  have captures : ∀ {binding : Binding} {outcome : Except Error Unit} {quoter : Quoter}
      {after : Watched}, binding.function.substituteFault? = none →
      entryRun watched.session.keys binding { function := binding.function } watched =
        ((outcome, quoter), after) →
      binding.function.capture (Session.entryRun watched.session.keys binding)
        watched.session = (binding.function.captured outcome quoter, after.session) := by
    intro binding outcome quoter after fits ran
    have ran' := @entryRun_session watched.session.keys binding (lookUpWithin_session _)
      { function := binding.function } watched
    rw [ran] at ran'
    simp only [Function.capture, fits, ran']
  cases outcome with
  | unknown absent => exact .unknown absent
  | kept found quoted => exact .kept found quoted
  | busy _ _ _ => cases straight
  | unfit found unquoted _ isUnfit => exact .unfit found isUnfit
  | failed found unquoted isIdle fits ran fails =>
    obtain ⟨done, -, once⟩ := sound.of_ran ran straight orderly (nested _)
      (List.mem_of_find?_eq_some found) unquoted isIdle fits
    have capture := captures fits ran
    rw [fails] at capture
    exact .failed found unquoted fits capture once
      (done.find?_ran (done.entries number) found unquoted) grows
  | @captured binding _ _ l after found unquoted isIdle fits ran succeeds =>
    obtain ⟨done, -, once⟩ := sound.of_ran ran straight orderly (nested _)
      (List.mem_of_find?_eq_some found) unquoted isIdle fits
    have still := done.find?_ran (done.entries number) found unquoted
    have now : ((after.session.setRegistry number ((after.session.registry number).keep
        binding.key l)).registry number).find? f = some { binding with quoted := some l } := by
      rw [Session.registry_setRegistry, if_pos rfl, Registry.find?_keep, still, Option.map_some,
        if_pos rfl]
    have capture := captures fits ran
    rw [succeeds] at capture
    exact .captured found unquoted fits capture rfl once now grows

theorem InOrder.enters (inOrder : watched.InOrder) (number : Nat) (f : Function) (body : Body) :
    watched.session.Enters number f body watched.session.supply.next
      (watched.session.register number f body).2 where
  entry g := by rw [Session.registry_register, if_pos rfl, Registry.find?_insert]
  others other differs := by rw [Session.registry_register, if_neg differs]
  runs := rfl
  unrun := List.count_eq_zero.mpr fun ran => Nat.lt_irrefl _ (inOrder.sound.runs _ ran)

/-- At every moment of a history each registry is a map from functions, told by identity, to the
bodies entered for them last and the lambdas captured from these.

* It lists the names of its functions in order, each as often as there are functions of that name.
* The body of an entry has been run once for each look-up of the entry until one captured a lambda,
  and all look-ups have come to this lambda since then, those that other bodies made included; and
  not at all if the function cannot be a substitute. No look-up waits.
* Entering a function says whether it had an entry, and leaves it with the new body, of which
  nothing is captured. If only a function without an entry is to be entered and there is one,
  nothing changes. Removing an entry says whether there was one.
* A look-up, unless it leads to one of an entry in the course of its own capture and so waits, runs
  nothing and changes nothing if the function has no entry, cannot be a substitute, or stands for a
  lambda already. Otherwise it runs the body once, and keeps a lambda exactly if the capture
  succeeds. -/
theorem History.is_map (history : watched.History) (number : Nat) :
    let session := watched.session
    let registry := session.registry number
    registry.Maps (registry.bindings.map Binding.function) ∧
      (∀ binding ∈ registry.bindings, binding.function.Account (session.runsOf binding.key)
        (watched.answersOf binding.key) binding.quoted) ∧
      session.waits = false ∧
      ∀ f,
        (∀ body, ∃ key after, session.register number f body = ((key, registry.contains f), after) ∧
          session.Enters number f body key after) ∧
        (∀ body, (registry.contains f = true ∧ session.registerNew number f body =
            (.error (.invalidArgument (.alreadyRegistered f.name)), session)) ∨
          (registry.contains f = false ∧ ∃ key after,
            session.registerNew number f body = (.ok key, after) ∧
              session.Enters number f body key after)) ∧
        (∃ after, session.unregister number f = (registry.contains f, after) ∧
          session.Removes number f after) ∧
        session.quotedBody number f =
          ((watched.quotedBody number f).1, (watched.quotedBody number f).2.session) ∧
        ((session.quotedBody number f).2.waits = false →
          session.LooksUp number f (session.quotedBody number f)) := by
  intro session registry
  have inOrder := history.inOrder
  refine ⟨Registry.maps ?_, fun binding member => ?_, inOrder.sound.straight, fun f => ?_⟩
  · have distinct := inOrder.orderly.functions number
    rw [blank, Registry.blank, List.map_map] at distinct
    exact distinct
  · cases inOrder.sound.live number binding member with
    | idle _ account => exact account
    | underWay isBusy => exact absurd (Session.mem_keys member) isBusy
  have enters : ∀ body, session.Enters number f body session.supply.next
      (session.register number f body).2 := inOrder.enters number f
  refine ⟨fun body => ⟨_, _, rfl, enters body⟩, fun body => ?_, ⟨_, rfl, ?_⟩,
    watched.lookUpWithin_session _ number f, inOrder.looksUp number f⟩
  · rw [Session.registerNew_eq]
    cases known : (session.registry number).contains f with
    | true => exact .inl ⟨rfl, if_pos rfl⟩
    | false => exact .inr ⟨rfl, _, _, if_neg Bool.false_ne_true, enters body⟩
  · exact Session.removes session number f

namespace LookedUpTwice

def x : Parameter := ⟨16, "x", .int⟩

/-- The lambda `x => x`. -/
def identity : Lambda := ⟨[x], ⟨0, .parameter x⟩, .int⟩

def inner : Function := ⟨18, "same", none, [⟨"n", .int, .value⟩], .int, none⟩

/-- Another function of the same name. -/
def outer : Function := { inner with id := 19 }

def quoting : Body := .quote identity fun _ => .finish (.ok ())

theorem quotes : quoting.DrawsOnward := fun _ => trivial

/-- A body that looks another function up before it quotes. -/
def asking : Body := .lookUp 0 inner fun _ => quoting

def entered : Watched where
  session := ((({} : Session).register 0 inner quoting).2.register 0 outer asking).2

def looked : Watched := ((entered.quotedBody 0 outer).2.quotedBody 0 outer).2

theorem history : looked.History := by
  have first : entered.History :=
    .register (.register (.start {} DepthGuard.defaultLimit) 0 inner quotes) 0 outer
      fun _ => quotes
  have once : (entered.quotedBody 0 outer).2.History :=
    .quotedBody first 0 outer (by decide +kernel)
  exact .quotedBody once 0 outer (by decide +kernel)

end LookedUpTwice

open LookedUpTwice in
/-- The second look-up runs neither body again, though the first has run both. -/
theorem History.is_map_lookedUpTwice :
    looked.History ∧ looked.session.runs = [16, 17] ∧
      looked.answers = [(16, .ok identity), (17, .ok identity), (17, .ok identity)] ∧
      (looked.session.registry 0).names = ["same", "same"] ∧
      (looked.session.registry 0).Maps
        ((looked.session.registry 0).bindings.map Binding.function) ∧
      ∀ binding ∈ (looked.session.registry 0).bindings, binding.function.Account
        (looked.session.runsOf binding.key) (looked.answersOf binding.key) binding.quoted := by
  obtain ⟨maps, accounts, -⟩ := history.is_map 0
  exact ⟨history, by decide +kernel, by cbv, by cbv, maps, accounts⟩

end Watched

end TypedTrees
