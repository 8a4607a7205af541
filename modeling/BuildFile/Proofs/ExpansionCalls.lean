import BuildFile.Proofs.Evaluation
import Mathlib.Data.List.Dedup
import Mathlib.Data.List.Perm.Subperm

/-! # The calls of an expansion

Expanding a template calls the expansion of the names in it, and expanding a name calls that of the
template which it stands for, with the name put on a stack. Nothing in this counts the calls or
keeps a set of visited names. It ends all the same: the names on the stack are different from each
other and stand for templates, so there are never more of them than names that the scope binds to
templates.
-/

namespace BuildFile.Scope

/-- A call, with the names that are being expanded around it, the innermost first. -/
inductive Call where
  /-- Expand a template, or what is left of it. -/
  | template (active : List Name) (template : Template)
  /-- Expand a name. -/
  | name (active : List Name) (name : Name)
  deriving Repr, DecidableEq

namespace Call

/-- The names that are being expanded around a call. -/
def active : Call → List Name
  | .template active _ | .name active _ => active

/-- What a call has to expand. -/
def content : Call → Template
  | .template _ content => content
  | .name _ met => [.reference met]

/-- What a call comes to. -/
def result (scope : Scope) : Call → Except ExpansionError Bytes
  | .template active content => scope.expandWithin active content
  | .name active met => scope.expandReference active met

end Call

/-- A call ends with a result, after the given calls have been made in it, in the order in which
    they start. There are no others, so a call that goes on for ever does not end. -/
inductive Ends (scope : Scope) : Call → List Call → Except ExpansionError Bytes → Prop where
  | nothing {active : List Name} : Ends scope (.template active []) [] (.ok [])
  | literal {active : List Name} {text : Bytes} {rest : Template} {later : List Call}
      {result : Except ExpansionError Bytes}
      (further : Ends scope (.template active rest) later result) :
      Ends scope (.template active (.literal text :: rest)) later (result.map (text ++ ·))
  | reference {active : List Name} {name : Name} {rest : Template} {inner later : List Call}
      {text : Bytes} {result : Except ExpansionError Bytes}
      (first : Ends scope (.name active name) inner (.ok text))
      (further : Ends scope (.template active rest) later result) :
      Ends scope (.template active (.reference name :: rest)) (.name active name :: inner ++ later)
        (result.map (text ++ ·))
  /-- The first reference that cannot be expanded ends the expansion of a template. -/
  | failed {active : List Name} {name : Name} {rest : Template} {inner : List Call}
      {error : ExpansionError} (first : Ends scope (.name active name) inner (.error error)) :
      Ends scope (.template active (.reference name :: rest)) (.name active name :: inner)
        (.error error)
  | unknown {active : List Name} {name : Name} (meaning : scope.meaning? name = none) :
      Ends scope (.name active name) [] (.ok [])
  | value {active : List Name} {name : Name} {text : Bytes}
      (meaning : scope.meaning? name = some (.value text)) :
      Ends scope (.name active name) [] (.ok text)
  | paths {active : List Name} {name : Name} {paths : List Bytes} {onLines : Bool}
      (meaning : scope.meaning? name = some (.paths paths onLines)) :
      Ends scope (.name active name) [] (.ok (joinPaths paths onLines))
  /-- A name that is being expanded is not entered again. -/
  | met {active : List Name} {name : Name} {template : Template}
      (meaning : scope.meaning? name = some (.template template)) (known : name ∈ active) :
      Ends scope (.name active name) [] (.error (.closing active name))
  | entered {active : List Name} {name : Name} {template : Template} {inner : List Call}
      {result : Except ExpansionError Bytes}
      (meaning : scope.meaning? name = some (.template template)) (idle : name ∉ active)
      (within : Ends scope (.template (name :: active) template) inner result) :
      Ends scope (.name active name) (.template (name :: active) template :: inner) result

variable {scope : Scope} {call start : Call} {calls : List Call} {active : List Name} {name : Name}
  {template : Template} {result : Except ExpansionError Bytes}

theorem exists_ends_name
    (inner : ∀ template, scope.meaning? name = some (.template template) → name ∉ active →
      ∃ calls, scope.Ends (.template (name :: active) template) calls
        (scope.expandWithin (name :: active) template)) :
    ∃ calls, scope.Ends (.name active name) calls (scope.expandReference active name) := by
  unfold expandReference
  split
  · next meaning => exact ⟨_, .unknown meaning⟩
  · next text meaning => exact ⟨_, .value meaning⟩
  · next paths onLines meaning => exact ⟨_, .paths meaning⟩
  · next template meaning =>
    split
    · next known => exact ⟨_, .met meaning (List.contains_iff_mem.1 known)⟩
    · next idle =>
      rw [List.contains_iff_mem] at idle
      obtain ⟨calls, ends⟩ := inner template meaning idle
      exact ⟨_, .entered meaning idle ends⟩

theorem exists_ends_template (scope : Scope) (active : List Name) (template : Template) :
    ∃ calls, scope.Ends (.template active template) calls (scope.expandWithin active template) := by
  induction active, template using expandWithin.induct scope with
  | case1 active =>
      rw [expandWithin]
      exact ⟨_, .nothing⟩
  | case2 active text rest ih =>
      obtain ⟨later, further⟩ := ih
      rw [expandWithin]
      exact ⟨_, further.literal⟩
  | case3 active name rest inner ih =>
      obtain ⟨made, first⟩ := exists_ends_name inner
      obtain ⟨later, further⟩ := ih
      rw [expandWithin_reference]
      cases expanded : scope.expandReference active name with
      | error error =>
          rw [expanded] at first
          exact ⟨_, first.failed⟩
      | ok text =>
          rw [expanded] at first
          exact ⟨_, first.reference further⟩

/-- Every call ends, and with what the expansion of its template or name comes to. -/
theorem exists_ends (scope : Scope) (call : Call) :
    ∃ calls, scope.Ends call calls (call.result scope) := by
  cases call with
  | template active template => exact exists_ends_template scope active template
  | name active name => exact exists_ends_name fun template _ _ => exists_ends_template scope _ _

/-- There is only one way in which a call ends. -/
theorem Ends.unique {others : List Call} {other : Except ExpansionError Bytes}
    (h : scope.Ends call calls result) (h' : scope.Ends call others other) :
    calls = others ∧ result = other := by
  induction h generalizing others other with
  | nothing =>
      cases h'
      exact ⟨rfl, rfl⟩
  | literal _ ih =>
      cases h' with
      | literal further =>
        obtain ⟨rfl, rfl⟩ := ih further
        exact ⟨rfl, rfl⟩
  | reference _ _ ihFirst ihFurther =>
      cases h' with
      | reference first further =>
          obtain ⟨rfl, same⟩ := ihFirst first
          obtain ⟨rfl, rfl⟩ := ihFurther further
          cases same
          exact ⟨rfl, rfl⟩
      | failed first => cases (ihFirst first).2
  | failed _ ih =>
      cases h' with
      | reference first further => cases (ih first).2
      | failed first =>
          obtain ⟨rfl, same⟩ := ih first
          cases same
          exact ⟨rfl, rfl⟩
  | unknown | value | paths | met => cases h' <;> simp_all
  | entered meaning idle _ ih =>
      cases h' with
      | entered again _ within =>
          obtain rfl := Meaning.template.inj (Option.some.inj (meaning.symm.trans again))
          obtain ⟨rfl, rfl⟩ := ih within
          exact ⟨rfl, rfl⟩
      | _ => simp_all

theorem IsWalk.single {rest : Template} (walk : scope.IsWalk active (.reference name :: rest)) :
    scope.IsWalk active [.reference name] := by
  refine ⟨walk.toIsStack, fun inner head other member => ?_⟩
  obtain rfl : other = name := by simpa [Template.references] using member
  exact walk.referred inner head other (mem_references_reference.2 (.inl rfl))

/-- Each call that is made on a walk goes on with this walk. -/
theorem Ends.isWalk (h : scope.Ends start calls result)
    (walk : scope.IsWalk start.active start.content) :
    ∀ call ∈ calls, scope.IsWalk call.active call.content := by
  induction h with
  | nothing | unknown | value | paths | met => simp
  | literal _ ih => exact ih walk.further
  | reference _ _ ihFirst ihFurther =>
      have first : scope.IsWalk _ [.reference _] := walk.single
      exact List.forall_mem_append.2 ⟨List.forall_mem_cons.2 ⟨first, ihFirst first⟩,
        ihFurther walk.further⟩
  | failed _ ih =>
      have first : scope.IsWalk _ [.reference _] := walk.single
      exact List.forall_mem_cons.2 ⟨first, ih first⟩
  | entered meaning idle _ ih =>
      have within := walk.enter meaning idle
      exact List.forall_mem_cons.2 ⟨within, ih within⟩

/-- There are not more names on a stack than names that are bound to templates. -/
theorem IsStack.length_le (stack : scope.IsStack active) :
    active.length ≤ scope.templateNames.dedup.length := by
  have bound : active ⊆ scope.templateNames.dedup := by
    intro name member
    obtain ⟨template, meaning⟩ := stack.templates name member
    exact List.mem_dedup.2 (mem_templateNames meaning)
  exact (stack.nodup.subperm bound).length_le

/-- Expansion ends in every scope, after finitely many calls. Around each of them the names that are
    being expanded are a stack: they are different, each stands for a template, and the template of
    the next outer one refers to it. So there are not more than the scope binds to templates. -/
theorem expansion_stack_bounded (scope : Scope) :
    (∀ template, ∃! calls, scope.Ends (.template [] template) calls (scope.expand template)) ∧
    (∀ name, ∃! calls, scope.Ends (.name [] name) calls (scope.expandName name)) ∧
    ∀ start calls result, start.active = [] → scope.Ends start calls result →
      ∀ call ∈ start :: calls, scope.IsStack call.active ∧
        call.active.length ≤ scope.templateNames.dedup.length := by
  refine ⟨fun template => ?_, fun name => ?_, ?_⟩
  · obtain ⟨calls, ends⟩ := exists_ends scope (.template [] template)
    exact ⟨calls, ends, fun others again => (again.unique ends).1⟩
  · obtain ⟨calls, ends⟩ := exists_ends scope (.name [] name)
    rw [expandName_eq]
    exact ⟨calls, ends, fun others again => (again.unique ends).1⟩
  · intro start calls result outermost ends call member
    have walk : scope.IsWalk start.active start.content := outermost ▸ isWalk_start start.content
    have stack : scope.IsStack call.active := by
      rcases List.mem_cons.1 member with rfl | inner
      · exact walk.toIsStack
      · exact (ends.isWalk walk call inner).toIsStack
    exact ⟨stack, stack.length_le⟩

/-- Three names are being expanded when the second of them is met again. -/
theorem expansion_stack_bounded_knotted :
    ∃ calls error, knotted.Ends (.template [] [.reference (ascii "c")]) calls (.error error) ∧
      .name [ascii "b", ascii "a", ascii "c"] (ascii "a") ∈ calls ∧
      knotted.IsStack [ascii "b", ascii "a", ascii "c"] ∧
      3 ≤ knotted.templateNames.dedup.length := by
  have c : knotted.meaning? (ascii "c") = some (.template [.reference (ascii "a")]) := by decide
  have a : knotted.meaning? (ascii "a") = some (.template [.reference (ascii "b")]) := by decide
  have b : knotted.meaning? (ascii "b") = some (.template [.reference (ascii "a")]) := by decide
  have inB : knotted.Ends (.template [ascii "b", ascii "a", ascii "c"] [.reference (ascii "a")]) _
      (.error _) := .failed (.met a (by decide))
  have inA : knotted.Ends (.template [ascii "a", ascii "c"] [.reference (ascii "b")]) _
      (.error _) := .failed (.entered b (by decide) inB)
  have inC : knotted.Ends (.template [ascii "c"] [.reference (ascii "a")]) _
      (.error _) := .failed (.entered a (by decide) inA)
  have ends : knotted.Ends (.template [] [.reference (ascii "c")]) _
      (.error _) := .failed (.entered c (by decide) inC)
  have bounded := (expansion_stack_bounded knotted).2.2 _ _ _ rfl ends
    (.name [ascii "b", ascii "a", ascii "c"] (ascii "a")) (by simp)
  exact ⟨_, _, ends, by simp, bounded⟩

end BuildFile.Scope
