import Mathlib.Data.List.Nodup
import TypedTrees.Proofs.Registry.LookUp
/-!
Look-ups that are watched. A `Watched` session takes down what every look-up of an entry has come
to, those that bodies make included. Watching changes nothing in the session
(`Watched.lookUpWithin_session`).

As long as no look-up waits, each entry keeps an account (`Function.Account`): its body has been run
once for each look-up until one captured a lambda, which all look-ups have come to from then on. One
look-up preserves this, whatever other captures it leads to and whichever are under way
(`Watched.lookUpWithin_proceeds`).
-/
namespace TypedTrees

/-- Whatever the body draws is new. -/
def Body.DrawsOnward : Body → Prop
  | .finish _ => True
  | .quote _ next => ∀ answer, (next answer).DrawsOnward
  | .draw rest next => ∀ supply, supply.next ≤ (rest supply).next ∧ (next supply).DrawsOnward
  | .capture _ body next => body.DrawsOnward ∧ ∀ answer, (next answer).DrawsOnward
  | .lookUp _ _ next => ∀ answer, (next answer).DrawsOnward

/-- A relation that looking up and drawing onward respect is one that running a body respects which
draws nothing but onward. -/
theorem Body.DrawsOnward.run_respects {σ : Type} {respects : σ → σ → Prop}
    (refl : ∀ state, respects state state)
    (trans : ∀ {a b c}, respects a b → respects b c → respects a c)
    {lookUp : Nat → Function → σ → Except Error (Option Lambda) × σ} {supply : σ → Supply}
    {setSupply : Supply → σ → σ} (asks : ∀ number f state, respects state (lookUp number f state).2)
    (draws : ∀ state drawn, (supply state).next ≤ drawn.next →
      respects state (setSupply drawn state))
    {body : Body} (onward : body.DrawsOnward) (quoter : Quoter) (state : σ) :
    respects state (body.run lookUp supply setSupply quoter state).2 := by
  induction body generalizing quoter state with
  | finish outcome => exact refl state
  | quote l next ih =>
    rw [run]
    exact ih _ (onward _) _ _
  | draw rest next ih =>
    rw [run]
    obtain ⟨further, after⟩ := onward (supply state)
    exact trans (draws _ _ further) (ih _ after _ _)
  | capture f body next inner ih =>
    rw [run]
    have captured := Function.capture_respects (refl state)
      (fun quoter => inner onward.1 quoter state) f
    exact trans captured (ih _ (onward.2 _) _ _)
  | lookUp number f next ih =>
    rw [run]
    exact trans (asks _ _ _) (ih _ (onward _) _ _)

/-- How often the body of a function's entry was run, what the look-ups of the entry have come to,
in turn, and what is kept with it. -/
inductive Function.Account (f : Function) :
    Nat → List (Except Error Lambda) → Option Lambda → Prop
  | unfit {fault : SubstituteFault} {answers : List (Except Error Lambda)}
      (isUnfit : f.substituteFault? = some fault)
      (refused : ∀ answer ∈ answers, answer = .error (.malformedSubstitute f.name fault)) :
      Account f 0 answers none
  | uncaptured {answers : List (Except Error Lambda)} (fits : f.substituteFault? = none)
      (failed : ∀ answer ∈ answers, ∃ e, answer = .error e) : Account f answers.length answers none
  | captured {failures : List (Except Error Lambda)} {l : Lambda} (fits : f.substituteFault? = none)
      (failed : ∀ answer ∈ failures, ∃ e, answer = .error e) (again : Nat) :
      Account f (failures.length + 1) (failures ++ List.replicate (again + 1) (.ok l)) (some l)

namespace Function.Account

variable {f : Function} {runs : Nat} {answers : List (Except Error Lambda)} {l : Lambda}

theorem refuse {fault : SubstituteFault} (isUnfit : f.substituteFault? = some fault)
    (account : f.Account runs answers none) :
    f.Account runs (answers ++ [.error (.malformedSubstitute f.name fault)]) none := by
  cases account with
  | unfit isUnfit' refused =>
    cases isUnfit.symm.trans isUnfit'
    refine .unfit isUnfit fun answer member => ?_
    rcases List.mem_append.mp member with before | last
    · exact refused answer before
    · exact List.mem_singleton.mp last
  | uncaptured fits _ => cases isUnfit.symm.trans fits

theorem repeat_ok (account : f.Account runs answers (some l)) :
    f.Account runs (answers ++ [.ok l]) (some l) := by
  cases account with
  | captured fits failed again =>
    rw [List.append_assoc, ← List.replicate_succ']
    exact .captured fits failed (again + 1)

theorem of_fits (fits : f.substituteFault? = none) (account : f.Account runs answers none) :
    runs = answers.length ∧ ∀ answer ∈ answers, ∃ e, answer = .error e := by
  cases account with
  | unfit isUnfit _ => cases fits.symm.trans isUnfit
  | uncaptured _ failed => exact ⟨rfl, failed⟩

end Function.Account

/-- A session, and what has been seen of the look-ups in it. -/
structure Watched where
  session : Session
  /-- The keys of the entries that were looked up, with what the look-ups have come to, in turn. -/
  answers : List (Nat × Except Error Lambda) := []

namespace Watched

def supply (watched : Watched) : Supply := watched.session.supply

def setSupply (supply : Supply) (watched : Watched) : Watched :=
  { watched with session := watched.session.setSupply supply }

/-- What the look-ups of an entry have come to, in turn. -/
def answersOf (watched : Watched) (key : Nat) : List (Except Error Lambda) :=
  (watched.answers.filter fun answer => answer.1 = key).map Prod.snd

/-- Takes down what a look-up of an entry has come to. -/
def note (key : Nat) (answer : Except Error Lambda) (watched : Watched) : Watched :=
  { watched with answers := watched.answers ++ [(key, answer)] }

def count (key : Nat) (watched : Watched) : Watched :=
  { watched with session := { watched.session with runs := key :: watched.session.runs } }

def wait (watched : Watched) : Watched :=
  { watched with session := { watched.session with waits := true } }

def keep (number key : Nat) (l : Lambda) (watched : Watched) : Watched :=
  { watched with
    session := watched.session.setRegistry number ((watched.session.registry number).keep key l) }

/-- What a function stands for, looked up while only the entries with the keys `idle` are idle. -/
def lookUpWithin (idle : List Nat) (number : Nat) (f : Function) (watched : Watched) :
    Except Error (Option Lambda) × Watched :=
  match (watched.session.registry number).find? f with
  | none => (.ok none, watched)
  | some binding =>
    match binding.quoted with
    | some l => (.ok (some l), watched.note binding.key (.ok l))
    | none =>
      if _ : binding.key ∈ idle then
        let run : BodyRun Watched := fun quoter watched =>
          binding.body.run (lookUpWithin (idle.removeAll [binding.key])) supply setSupply quoter
            (watched.count binding.key)
        match binding.function.capture run watched with
        | (.error e, watched) => (.error e, watched.note binding.key (.error e))
        | (.ok l, watched) =>
          (.ok (some l), (watched.keep number binding.key l).note binding.key (.ok l))
      else (.error (.malformedSubstitute f.name .nothingQuoted), watched.wait)
termination_by idle.length
decreasing_by exact Session.length_removeAll_lt ‹_›

def quotedBody (number : Nat) (f : Function) (watched : Watched) :
    Except Error (Option Lambda) × Watched :=
  watched.lookUpWithin watched.session.keys number f

/-- Runs the body of an entry, as a look-up does that captures its lambda. -/
def entryRun (idle : List Nat) (binding : Binding) : BodyRun Watched := fun quoter watched =>
  binding.body.run (lookUpWithin (idle.removeAll [binding.key])) supply setSupply quoter
    (watched.count binding.key)

/-- What a watched look-up comes to, case by case. -/
inductive LookUpCase (idle : List Nat) (number : Nat) (f : Function) (watched : Watched) :
    Except Error (Option Lambda) × Watched → Prop
  | unknown (absent : (watched.session.registry number).find? f = none) :
      LookUpCase idle number f watched (.ok none, watched)
  | kept {binding : Binding} {l : Lambda}
      (found : (watched.session.registry number).find? f = some binding)
      (quoted : binding.quoted = some l) :
      LookUpCase idle number f watched (.ok (some l), watched.note binding.key (.ok l))
  | busy {binding : Binding} (found : (watched.session.registry number).find? f = some binding)
      (unquoted : binding.quoted = none) (isBusy : binding.key ∉ idle) :
      LookUpCase idle number f watched
        (.error (.malformedSubstitute f.name .nothingQuoted), watched.wait)
  | unfit {binding : Binding} {fault : SubstituteFault}
      (found : (watched.session.registry number).find? f = some binding)
      (unquoted : binding.quoted = none) (isIdle : binding.key ∈ idle)
      (isUnfit : binding.function.substituteFault? = some fault) :
      LookUpCase idle number f watched
        (.error (.malformedSubstitute binding.function.name fault),
          watched.note binding.key (.error (.malformedSubstitute binding.function.name fault)))
  | failed {binding : Binding} {outcome : Except Error Unit} {quoter : Quoter} {e : Error}
      {after : Watched} (found : (watched.session.registry number).find? f = some binding)
      (unquoted : binding.quoted = none) (isIdle : binding.key ∈ idle)
      (fits : binding.function.substituteFault? = none)
      (ran : entryRun idle binding { function := binding.function } watched =
        ((outcome, quoter), after))
      (fails : binding.function.captured outcome quoter = .error e) :
      LookUpCase idle number f watched (.error e, after.note binding.key (.error e))
  | captured {binding : Binding} {outcome : Except Error Unit} {quoter : Quoter} {l : Lambda}
      {after : Watched} (found : (watched.session.registry number).find? f = some binding)
      (unquoted : binding.quoted = none) (isIdle : binding.key ∈ idle)
      (fits : binding.function.substituteFault? = none)
      (ran : entryRun idle binding { function := binding.function } watched =
        ((outcome, quoter), after))
      (captures : binding.function.captured outcome quoter = .ok l) :
      LookUpCase idle number f watched
        (.ok (some l), (after.keep number binding.key l).note binding.key (.ok l))

theorem lookUpWithin_cases (idle : List Nat) (number : Nat) (f : Function) (watched : Watched) :
    LookUpCase idle number f watched (watched.lookUpWithin idle number f) := by
  rw [lookUpWithin]
  split
  · rename_i absent
    exact .unknown absent
  · rename_i binding found
    split
    · rename_i quoted
      exact .kept found quoted
    · rename_i unquoted
      split
      · rename_i isIdle
        simp only [Function.capture]
        cases isUnfit : binding.function.substituteFault? with
        | some fault => exact .unfit found unquoted isIdle isUnfit
        | none =>
          rcases ran : entryRun idle binding { function := binding.function } watched with
            ⟨⟨outcome, quoter⟩, after⟩
          rw [entryRun] at ran
          simp only [ran]
          cases outcomes : binding.function.captured outcome quoter with
          | error e => exact .failed found unquoted isIdle isUnfit ran outcomes
          | ok l => exact .captured found unquoted isIdle isUnfit ran outcomes
      · rename_i isBusy
        exact .busy found unquoted isBusy

theorem entryRun_session {idle : List Nat} {binding : Binding}
    (asks : ∀ number f (watched : Watched),
      watched.session.lookUpWithin (idle.removeAll [binding.key]) number f =
        ((watched.lookUpWithin (idle.removeAll [binding.key]) number f).1,
          (watched.lookUpWithin (idle.removeAll [binding.key]) number f).2.session))
    (quoter : Quoter) (watched : Watched) :
    Session.entryRun idle binding quoter watched.session =
      ((entryRun idle binding quoter watched).1,
        (entryRun idle binding quoter watched).2.session) :=
  @Body.run_map _ _ Watched.session (lookUpWithin (idle.removeAll [binding.key])) _ supply
    Session.supply setSupply Session.setSupply asks (fun _ => rfl) (fun _ _ => rfl) binding.body
    quoter (watched.count binding.key)

/-- Watching a look-up changes nothing in what it does. -/
theorem lookUpWithin_session (idle : List Nat) (number : Nat) (f : Function) (watched : Watched) :
    watched.session.lookUpWithin idle number f =
      ((watched.lookUpWithin idle number f).1, (watched.lookUpWithin idle number f).2.session) := by
  induction idle using Session.idle_induction generalizing number f watched with
  | step idle ih =>
    have runs : ∀ {binding : Binding} {ran}, binding.key ∈ idle →
        entryRun idle binding { function := binding.function } watched = ran →
          Session.entryRun idle binding { function := binding.function } watched.session =
            (ran.1, ran.2.session) := by
      rintro binding _ isIdle rfl
      exact entryRun_session (ih binding.key isIdle) _ watched
    have outcome := lookUpWithin_cases idle number f watched
    generalize watched.lookUpWithin idle number f = result at outcome ⊢
    rw [Session.lookUpWithin]
    cases outcome with
    | unknown absent => simp only [absent]
    | kept found quoted =>
      simp only [found, quoted]
      rfl
    | busy found unquoted isBusy =>
      simp only [found, unquoted, dif_neg isBusy]
      rfl
    | unfit found unquoted isIdle isUnfit =>
      simp only [found, unquoted, dif_pos isIdle, Function.capture, isUnfit]
      rfl
    | failed found unquoted isIdle fits ran fails =>
      have ran' := runs isIdle ran
      rw [Session.entryRun] at ran'
      simp only [found, unquoted, dif_pos isIdle, Function.capture, fits, ran', fails]
      rfl
    | captured found unquoted isIdle fits ran captures =>
      have ran' := runs isIdle ran
      rw [Session.entryRun] at ran'
      simp only [found, unquoted, dif_pos isIdle, Function.capture, fits, ran', captures]
      rfl

/-- A session in which a look-up waits goes on waiting. -/
theorem lookUpWithin_lasts (idle : List Nat) (number : Nat) (f : Function) (watched : Watched) :
    watched.session.Lasts (watched.lookUpWithin idle number f).2.session := by
  have lasts := Session.lookUpWithin_lasts idle number f watched.session
  rwa [lookUpWithin_session] at lasts

theorem answersOf_note (key other : Nat) (answer : Except Error Lambda) (watched : Watched) :
    (watched.note key answer).answersOf other =
      if key = other then watched.answersOf other ++ [answer] else watched.answersOf other := by
  simp only [answersOf, note, List.filter_append, List.map_append]
  by_cases same : key = other
  · simp [same]
  · simp [same]

theorem runsOf_count (key other : Nat) (watched : Watched) :
    (watched.count key).session.runsOf other =
      watched.session.runsOf other + if key = other then 1 else 0 := by
  simp only [Session.runsOf, count, List.count_cons, beq_iff_eq]

/-- The account of an entry, while only the entries with the keys `idle` are idle: that of an entry
whose body is being run is one run ahead. -/
inductive Live (idle : List Nat) (watched : Watched) (binding : Binding) : Prop
  | idle (isIdle : binding.key ∈ idle)
      (account : binding.function.Account (watched.session.runsOf binding.key)
        (watched.answersOf binding.key) binding.quoted) : Live idle watched binding
  | underWay (isBusy : binding.key ∉ idle) (fits : binding.function.substituteFault? = none)
      (unquoted : binding.quoted = none)
      (failed : ∀ answer ∈ watched.answersOf binding.key, ∃ e, answer = .error e)
      (runs : watched.session.runsOf binding.key = (watched.answersOf binding.key).length + 1) :
      Live idle watched binding

theorem Live.congr {idle idle' : List Nat} {watched other : Watched} {binding : Binding}
    (live : watched.Live idle binding) (same : binding.key ∈ idle' ↔ binding.key ∈ idle)
    (runs : other.session.runsOf binding.key = watched.session.runsOf binding.key)
    (answers : other.answersOf binding.key = watched.answersOf binding.key) :
    other.Live idle' binding := by
  cases live with
  | idle isIdle account => exact .idle (same.mpr isIdle) (runs ▸ answers ▸ account)
  | underWay isBusy fits unquoted failed counts =>
    refine .underWay (same.not.mpr isBusy) fits unquoted (answers ▸ failed) ?_
    rw [runs, answers, counts]

/-- An entry that a lambda is kept with is idle: its body is not being run any more. -/
theorem Live.isIdle {idle : List Nat} {watched : Watched} {binding : Binding} {l : Lambda}
    (live : watched.Live idle binding) (quoted : binding.quoted = some l) : binding.key ∈ idle := by
  cases live with
  | idle isIdle _ => exact isIdle
  | underWay _ _ unquoted => cases quoted.symm.trans unquoted

/-- The entries of all registries, without the lambdas that are kept: each has a key of its own, no
function has two in one registry, and their bodies draw nothing but onward. -/
structure Orderly (blank : Nat → List Binding) (bound : Nat) : Prop where
  keys : ∀ number, ((blank number).map Binding.key).Nodup
  apart : ∀ number other, ∀ a ∈ blank number, ∀ b ∈ blank other, a.key = b.key → number = other
  functions : ∀ number, ((blank number).map fun binding => binding.function.id).Nodup
  onward : ∀ number, ∀ binding ∈ blank number, binding.body.DrawsOnward
  below : ∀ number, ∀ binding ∈ blank number, binding.key < bound

/-- These are the entries, no look-up waits, and the account of every entry is in order, while only
the entries with the keys `idle` are idle. -/
structure Sound (blank : Nat → List Binding) (bound : Nat) (idle : List Nat) (watched : Watched) :
    Prop where
  entries : ∀ number, (watched.session.registry number).blank = blank number
  onward : bound ≤ watched.session.supply.next
  runs : ∀ key ∈ watched.session.runs, key < watched.session.supply.next
  answers : ∀ answer ∈ watched.answers, answer.1 < watched.session.supply.next
  straight : watched.session.waits = false
  live : ∀ number, ∀ binding ∈ (watched.session.registry number).bindings,
    watched.Live idle binding

/-- What a stretch of work leaves alone of the entries whose bodies are being run. -/
structure Undisturbed (idle : List Nat) (before after : Watched) : Prop where
  answers : ∀ key ∉ idle, after.answersOf key = before.answersOf key
  runs : ∀ key ∉ idle, after.session.runsOf key = before.session.runsOf key

/-- A stretch of work while only the entries with the keys `idle` are idle. Unless a look-up waits
in the end, all accounts stay in order, and those of the other entries as they are. -/
structure Proceeds (blank : Nat → List Binding) (bound : Nat) (idle : List Nat)
    (before after : Watched) : Prop where
  lasts : before.session.Lasts after.session
  sound : after.session.waits = false → before.Sound blank bound idle →
    after.Sound blank bound idle
  undisturbed : after.session.waits = false → before.Sound blank bound idle →
    Undisturbed idle before after

section Sound

variable {blank : Nat → List Binding} {bound : Nat} {idle : List Nat} {watched : Watched}

theorem Undisturbed.refl (watched : Watched) : Undisturbed idle watched watched :=
  ⟨fun _ _ => rfl, fun _ _ => rfl⟩

theorem Proceeds.refl (watched : Watched) : Proceeds blank bound idle watched watched :=
  ⟨.refl _, fun _ => id, fun _ _ => .refl watched⟩

theorem Proceeds.trans {a b c : Watched} (first : Proceeds blank bound idle a b)
    (second : Proceeds blank bound idle b c) : Proceeds blank bound idle a c := by
  have before : c.session.waits = false → b.session.waits = false := second.lasts.straight
  refine ⟨first.lasts.trans second.lasts, fun straight sound => ?_, fun straight sound => ?_⟩
  · exact second.sound straight (first.sound (before straight) sound)
  · have here := first.undisturbed (before straight) sound
    have there := second.undisturbed straight (first.sound (before straight) sound)
    exact ⟨fun key isBusy => (there.answers key isBusy).trans (here.answers key isBusy),
      fun key isBusy => (there.runs key isBusy).trans (here.runs key isBusy)⟩

theorem Proceeds.setSupply (watched : Watched) (drawn : Supply)
    (onward : watched.supply.next ≤ drawn.next) :
    Proceeds blank bound idle watched (watched.setSupply drawn) := by
  refine ⟨.of_waits_eq rfl, fun _ sound => ?_, fun _ _ => ⟨fun _ _ => rfl, fun _ _ => rfl⟩⟩
  exact ⟨sound.entries, Nat.le_trans sound.onward onward,
    fun key member => Nat.lt_of_lt_of_le (sound.runs key member) onward,
    fun answer member => Nat.lt_of_lt_of_le (sound.answers answer member) onward, sound.straight,
    fun number binding member => (sound.live number binding member).congr .rfl rfl rfl⟩

theorem Sound.mem_blank (sound : watched.Sound blank bound idle) {number : Nat} {binding : Binding}
    (member : binding ∈ (watched.session.registry number).bindings) :
    binding.blank ∈ blank number := by
  rw [← sound.entries]
  exact List.mem_map_of_mem member

theorem Sound.key_lt (orderly : Orderly blank bound) (sound : watched.Sound blank bound idle)
    {number : Nat} {binding : Binding} (isEntry : binding.blank ∈ blank number) :
    binding.key < watched.session.supply.next :=
  Nat.lt_of_lt_of_le (orderly.below number binding.blank isEntry) sound.onward

/-- An entry is told by its key. -/
theorem Sound.same_entry (orderly : Orderly blank bound) (sound : watched.Sound blank bound idle)
    {number other : Nat} {a b : Binding}
    (inA : a ∈ (watched.session.registry number).bindings)
    (inB : b ∈ (watched.session.registry other).bindings) (keys : a.key = b.key) : a = b := by
  obtain rfl := orderly.apart _ _ _ (sound.mem_blank inA) _ (sound.mem_blank inB) keys
  have distinct := orderly.keys number
  rw [← sound.entries, ← Registry.keys_eq_blank] at distinct
  exact List.inj_on_of_nodup_map distinct inA inB keys

/-- An answer is noted after which every account is in order. -/
theorem Sound.note {idle' : List Nat} (sound : watched.Sound blank bound idle) {key : Nat}
    (below : key < watched.session.supply.next) (answer : Except Error Lambda)
    (live : ∀ number, ∀ binding ∈ (watched.session.registry number).bindings,
      (watched.note key answer).Live idle' binding) :
    (watched.note key answer).Sound blank bound idle' := by
  refine ⟨sound.entries, sound.onward, sound.runs, fun noted member => ?_, sound.straight, live⟩
  rcases List.mem_append.mp member with before | last
  · exact sound.answers noted before
  · rw [List.mem_singleton.mp last]
    exact below

/-- The account of an entry is not touched by what is noted of another. -/
theorem Live.note {idle' : List Nat} {key : Nat} {answer : Except Error Lambda} {binding : Binding}
    (live : watched.Live idle binding) (differ : key ≠ binding.key)
    (same : binding.key ∈ idle' ↔ binding.key ∈ idle) :
    (watched.note key answer).Live idle' binding :=
  live.congr same rfl (by rw [answersOf_note, if_neg differ])

/-- An answer is noted of an entry whose body is not being run, and its account stays in order. -/
theorem Sound.note_idle (orderly : Orderly blank bound) (sound : watched.Sound blank bound idle)
    {number : Nat} {binding : Binding}
    (member : binding ∈ (watched.session.registry number).bindings) (isIdle : binding.key ∈ idle)
    (answer : Except Error Lambda)
    (goes : ∀ {runs answers}, binding.function.Account runs answers binding.quoted →
      binding.function.Account runs (answers ++ [answer]) binding.quoted) :
    (watched.note binding.key answer).Sound blank bound idle := by
  refine sound.note (sound.key_lt orderly (sound.mem_blank member)) answer
    fun other entry inOther => ?_
  by_cases same : binding.key = entry.key
  · obtain rfl := sound.same_entry orderly member inOther same
    cases sound.live number binding member with
    | idle _ account =>
      refine .idle isIdle ?_
      rw [answersOf_note, if_pos rfl]
      exact goes account
    | underWay isBusy => exact absurd isIdle isBusy
  · exact (sound.live other entry inOther).note same .rfl

/-- The body of an entry begins to be run. -/
theorem Sound.count (orderly : Orderly blank bound) (sound : watched.Sound blank bound idle)
    {number : Nat} {binding : Binding}
    (member : binding ∈ (watched.session.registry number).bindings) (isIdle : binding.key ∈ idle)
    (fits : binding.function.substituteFault? = none) (unquoted : binding.quoted = none) :
    (watched.count binding.key).Sound blank bound (idle.removeAll [binding.key]) := by
  refine ⟨sound.entries, sound.onward, fun key ran => ?_, sound.answers, sound.straight,
    fun other entry inOther => ?_⟩
  · rcases List.mem_cons.mp ran with rfl | before
    · exact sound.key_lt orderly (sound.mem_blank member)
    · exact sound.runs key before
  · by_cases same : binding.key = entry.key
    · obtain rfl := sound.same_entry orderly member inOther same
      cases sound.live number binding member with
      | idle _ account =>
        rw [unquoted] at account
        obtain ⟨runs, failed⟩ := account.of_fits fits
        refine .underWay Session.not_mem_removeAll fits unquoted failed ?_
        rw [runsOf_count, if_pos rfl, runs]
        rfl
      | underWay isBusy => exact absurd isIdle isBusy
    · refine (sound.live other entry inOther).congr (Session.mem_removeAll_of_ne same) ?_ rfl
      rw [runsOf_count, if_neg same, Nat.add_zero]

/-- The body of an entry has been run, and no lambda was captured. -/
theorem Sound.fail (orderly : Orderly blank bound) {binding : Binding} {number : Nat}
    (sound : watched.Sound blank bound (idle.removeAll [binding.key]))
    (isIdle : binding.key ∈ idle) (isEntry : binding.blank ∈ blank number) (e : Error) :
    (watched.note binding.key (.error e)).Sound blank bound idle := by
  refine sound.note (sound.key_lt orderly isEntry) _ fun other entry inOther => ?_
  by_cases same : binding.key = entry.key
  · cases sound.live other entry inOther with
    | idle still => exact absurd same.symm (Session.mem_removeAll.mp still).2
    | underWay _ fits unquoted failed runs =>
      refine .idle (same ▸ isIdle) ?_
      have counts : (watched.note binding.key (.error e)).session.runsOf entry.key =
          (watched.answersOf entry.key ++ [Except.error e]).length := by
        rw [List.length_append]
        exact runs
      rw [answersOf_note, if_pos same, counts, unquoted]
      refine .uncaptured fits fun answer member => ?_
      rcases List.mem_append.mp member with before | last
      · exact failed answer before
      · exact ⟨e, List.mem_singleton.mp last⟩
  · exact (sound.live other entry inOther).note same (Session.mem_removeAll_of_ne same).symm

/-- The body of an entry has been run, and a lambda was captured. -/
theorem Sound.capture (orderly : Orderly blank bound) {binding : Binding} {number : Nat}
    (sound : watched.Sound blank bound (idle.removeAll [binding.key]))
    (isIdle : binding.key ∈ idle) (isEntry : binding.blank ∈ blank number) (l : Lambda) :
    ((watched.keep number binding.key l).note binding.key (.ok l)).Sound blank bound idle := by
  have grown := Session.SameEntries.keep watched.session number binding.key l
  have below : binding.key < watched.session.supply.next := sound.key_lt orderly isEntry
  refine ⟨fun other => (grown.entries other).trans (sound.entries other), sound.onward, sound.runs,
    fun noted member => ?_, sound.straight, fun other entry inOther => ?_⟩
  · rcases List.mem_append.mp member with before | last
    · exact sound.answers noted before
    · rwa [List.mem_singleton.mp last]
  have untouched : ∀ {old : Binding}, watched.Live (idle.removeAll [binding.key]) old →
      binding.key ≠ old.key →
        ((watched.keep number binding.key l).note binding.key (.ok l)).Live idle old := by
    intro old live differ
    refine live.congr (Session.mem_removeAll_of_ne differ).symm rfl ?_
    rw [answersOf_note, if_neg differ]
    rfl
  have inKept : entry ∈ ((watched.session.setRegistry number
      ((watched.session.registry number).keep binding.key l)).registry other).bindings := inOther
  rw [Session.registry_setRegistry] at inKept
  by_cases here : other = number
  · rw [if_pos here, Registry.keep] at inKept
    obtain ⟨old, inOld, rfl⟩ := List.mem_map.mp inKept
    by_cases same : old.key = binding.key
    · rw [if_pos same]
      cases sound.live number old inOld with
      | idle still => exact absurd same (Session.mem_removeAll.mp still).2
      | underWay _ fits unquoted failed runs =>
        refine .idle (same ▸ isIdle) ?_
        rw [answersOf_note, if_pos same.symm]
        have account := Function.Account.captured (l := l) fits failed 0
        rwa [← runs] at account
    · rw [if_neg same]
      exact untouched (sound.live number old inOld) (Ne.symm same)
  · rw [if_neg here] at inKept
    refine untouched (sound.live other entry inKept) fun same => here ?_
    exact (orderly.apart number other _ isEntry _ (sound.mem_blank inKept) same).symm

/-- The body of an entry is run, and so once, if look-ups proceed in the meantime. -/
theorem Sound.of_ran {number : Nat} {binding : Binding} {quoter : Quoter} {after : Watched}
    {outcome : Except Error Unit × Quoter}
    (ran : entryRun idle binding quoter watched = (outcome, after))
    (straight : after.session.waits = false) (orderly : Orderly blank bound)
    (sound : watched.Sound blank bound idle)
    (nested : ∀ number f (watched : Watched), Proceeds blank bound (idle.removeAll [binding.key])
      watched (watched.lookUpWithin (idle.removeAll [binding.key]) number f).2)
    (member : binding ∈ (watched.session.registry number).bindings)
    (unquoted : binding.quoted = none) (isIdle : binding.key ∈ idle)
    (fits : binding.function.substituteFault? = none) :
    after.Sound blank bound (idle.removeAll [binding.key]) ∧ Undisturbed idle watched after ∧
      after.session.runsOf binding.key = watched.session.runsOf binding.key + 1 := by
  have onward : binding.body.DrawsOnward :=
    orderly.onward number binding.blank (sound.mem_blank member)
  have proceeds : Proceeds blank bound (idle.removeAll [binding.key]) (watched.count binding.key)
      after := by
    have proceeds := onward.run_respects Proceeds.refl Proceeds.trans nested Proceeds.setSupply
      quoter (watched.count binding.key)
    rw [entryRun] at ran
    rwa [ran] at proceeds
  have began := sound.count orderly member isIdle fits unquoted
  have isBusy : ∀ {key}, key ∉ idle → key ∉ idle.removeAll [binding.key] := fun isBusy still =>
    isBusy (Session.mem_removeAll.mp still).1
  obtain ⟨answers, runs⟩ := proceeds.undisturbed straight began
  refine ⟨proceeds.sound straight began, ⟨fun key busy => answers key (isBusy busy),
    fun key busy => ?_⟩, ?_⟩
  · have differ : binding.key ≠ key := fun same => busy (same ▸ isIdle)
    rw [runs key (isBusy busy), runsOf_count, if_neg differ]
    rfl
  · rw [runs binding.key Session.not_mem_removeAll, runsOf_count, if_pos rfl]

/-- What is noted of an idle entry leaves those alone whose bodies are being run. -/
theorem Undisturbed.note {before after : Watched} (undisturbed : Undisturbed idle before after)
    {key : Nat} (isIdle : key ∈ idle) (answer : Except Error Lambda) :
    Undisturbed idle before (after.note key answer) := by
  refine ⟨fun other isBusy => ?_, undisturbed.runs⟩
  have differ : key ≠ other := fun same => isBusy (same ▸ isIdle)
  rw [answersOf_note, if_neg differ]
  exact undisturbed.answers other isBusy

/-- A look-up keeps all accounts in order, whichever bodies are being run, if neither it nor any
look-up that it leads to waits. -/
theorem lookUpWithin_proceeds (orderly : Orderly blank bound) (idle : List Nat) (number : Nat)
    (f : Function) (watched : Watched) :
    Proceeds blank bound idle watched (watched.lookUpWithin idle number f).2 := by
  induction idle using Session.idle_induction generalizing number f watched with
  | step idle ih =>
    have both : (watched.lookUpWithin idle number f).2.session.waits = false →
        watched.Sound blank bound idle →
          (watched.lookUpWithin idle number f).2.Sound blank bound idle ∧
            Undisturbed idle watched (watched.lookUpWithin idle number f).2 := by
      have outcome := lookUpWithin_cases idle number f watched
      generalize watched.lookUpWithin idle number f = result at outcome ⊢
      intro straight sound
      cases outcome with
      | unknown _ => exact ⟨sound, .refl watched⟩
      | kept found quoted =>
        have member := List.mem_of_find?_eq_some found
        have isIdle := (sound.live number _ member).isIdle quoted
        refine ⟨sound.note_idle orderly member isIdle _ fun account => ?_,
          (Undisturbed.refl watched).note isIdle _⟩
        rw [quoted] at account ⊢
        exact account.repeat_ok
      | busy _ _ _ => cases straight
      | unfit found unquoted isIdle isUnfit =>
        refine ⟨sound.note_idle orderly (List.mem_of_find?_eq_some found) isIdle _
          fun account => ?_, (Undisturbed.refl watched).note isIdle _⟩
        rw [unquoted] at account ⊢
        exact account.refuse isUnfit
      | @failed binding _ _ e after found unquoted isIdle fits ran _ =>
        have member := List.mem_of_find?_eq_some found
        obtain ⟨done, undisturbed, -⟩ := sound.of_ran ran straight orderly (ih binding.key isIdle)
          member unquoted isIdle fits
        exact ⟨done.fail orderly isIdle (sound.mem_blank member) e, undisturbed.note isIdle _⟩
      | @captured binding _ _ l after found unquoted isIdle fits ran _ =>
        have member := List.mem_of_find?_eq_some found
        obtain ⟨done, undisturbed, -⟩ := sound.of_ran ran straight orderly (ih binding.key isIdle)
          member unquoted isIdle fits
        have kept : Undisturbed idle watched (after.keep number binding.key l) :=
          ⟨undisturbed.answers, undisturbed.runs⟩
        exact ⟨done.capture orderly isIdle (sound.mem_blank member) l, kept.note isIdle _⟩
    exact ⟨lookUpWithin_lasts idle number f watched, fun straight sound => (both straight sound).1,
      fun straight sound => (both straight sound).2⟩

end Sound

end Watched

end TypedTrees
