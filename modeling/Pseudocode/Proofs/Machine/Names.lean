import Pseudocode.Proofs.Statement.Targets

set_option autoImplicit false

namespace Pseudocode

open Text (isIdentifier)

namespace Declaration

theorem apply_scalar {d : Declaration} {name : Spanned Text} (single : d.names = [name])
    (unbounded : d.bounds = none) {type : DataType} (typed : d.type.node = type.keyword.toList)
    {s : Store} (free : s.checkDeclarable name.node = .ok ()) :
    d.apply s = (s.put name.node (.scalar type .unset), .ok ()) := by
  have passes : d.Passes s := by
    refine ⟨?_, ⟨type, typed⟩, ?_⟩
    · rw [single]
      exact List.forall_mem_singleton.mpr free
    · rw [unbounded]
      nofun
  have declared : d.declareName s name = .ok (s.put name.node (.scalar type .unset)) := by
    refine (declareName_eq_ok_iff d s _ name).mpr ⟨free, ?_, type, typed, ?_⟩
    · rw [unbounded]
      nofun
    · rw [blank, unbounded]
  rw [passes.apply_eq, single, declareNames, declared]
  rfl

end Declaration

namespace Expression

/-- A variable has the value that was assigned to it. -/
theorem evaluate_name {s : Store} {name : Text} (named : isIdentifier name = true)
    {type : DataType} {v : Value} (found : s.find? name = some (.scalar type v))
    (set : v.isSet = true) : evaluate s name = .ok v := by
  obtain ⟨place, read⟩ := Token.tokenize_of_isIdentifier named
  have clause := (Text.item_of_isIdentifier named).toClause
  refine evaluate_of_operand clause.nonempty clause.trimmed read rfl rfl ?_
  show ((s.getScalar name).mapError _ >>= _) = .ok v
  rw [Store.getScalar_of_find? found]
  exact if_pos set

theorem evaluate_zero (s : Store) : evaluate s "0".toList = .ok (.integer 0) := by
  have read : tokenize "0".toList = .ok [⟨.number "0".toList, ⟨0, 1⟩⟩] := by decide +kernel
  have literal : Arithmetic.literal "0".toList = .ok (.integer 0) := by decide +kernel
  refine evaluate_of_operand (by decide) (by decide) read rfl rfl ?_
  simp only [operandWith, literal]
  rfl

theorem evaluateAt_of_evaluate {s : Store} {piece : Spanned Text} {v : Value}
    (made : evaluate s piece.node = .ok v) : evaluateAt s piece = .ok v := by
  rw [evaluateAt, made]
  rfl

end Expression

namespace Store

theorem setScalar_integer {s : Store} {name : Text} {old : Value}
    (found : s.find? name = some (.scalar .integer old)) (n : Int64) :
    s.setScalar name (.integer n) = .ok (s.put name (.scalar .integer (.integer n))) := by
  have kept : coerce s.policy .integer (.integer n) = .ok (.integer n) := by
    cases s.policy <;> rfl
  rw [setScalar, (get_eq_ok_iff s name _).mpr found]
  show (coerce s.policy .integer (.integer n) >>= _) = _
  rw [kept]
  rfl

end Store

theorem Target.eq_variable_of_bare {target : Target} {name : Text}
    (same : target.bare = .variable name) : target = .variable name := by
  rcases target with other | ⟨other, index⟩
  · exact same
  · cases same

namespace Machine

/-- The line of a statement is executed as that statement. -/
theorem executeLine_printed (m : Machine) {s : Statement} (printable : s.Printable) :
    ∃ found : Statement, found.bare = s.bare ∧
      m.executeLine s.printed =
        ((m.execute found).1, (m.execute found).2.map fun _ => true) := by
  obtain ⟨span, line⟩ := Statement.ofLine_of_clean (Statement.clean_printed printable)
  obtain ⟨found, read, same⟩ := Statement.readCode_printed printable span
  refine ⟨found, same, ?_⟩
  rw [executeLine, line, read]
  rfl

variable (m : Machine) {name : Text}

theorem executeLine_declare (free : m.store.checkDeclarable name = .ok ()) :
    m.executeLine ("DECLARE ".toList ++ name ++ " : INTEGER".toList) =
      ({ m with store := m.store.put name (.scalar .integer .unset) }, .ok true) := by
  have named := ((Store.checkDeclarable_eq_ok_iff _ _).mp free).1
  have typed : "INTEGER".toList ∈ DataType.keywords := by decide
  obtain ⟨found, same, line⟩ := m.executeLine_printed
    (s := .declare ⟨[⟨name, ⟨0, 0⟩⟩], ⟨"INTEGER".toList, ⟨0, 0⟩⟩, none⟩)
    ⟨List.cons_ne_nil _ _, List.forall_mem_singleton.mpr named, typed⟩
  have text : "DECLARE ".toList ++ name ++ " : INTEGER".toList = Statement.printed
      (.declare ⟨[⟨name, ⟨0, 0⟩⟩], ⟨"INTEGER".toList, ⟨0, 0⟩⟩, none⟩) := by
    have first : "DECLARE ".toList = Keyword.declare ++ " ".toList := by decide
    have last : " : INTEGER".toList = " : ".toList ++ "INTEGER".toList := by decide
    rw [first, last, ← List.append_assoc, Statement.printed, List.map_singleton,
      Text.commaSeparated, List.intercalate_singleton, Declaration.printedType]
  rw [text, line]
  cases found with
  | declare d =>
      obtain ⟨names, type, bounds⟩ := d
      obtain ⟨names_eq, type_eq, bounds_eq⟩ := Declaration.mk.inj (Statement.declare.inj same)
      obtain ⟨declared, rfl, name_eq⟩ := List.map_eq_singleton_iff.mp names_eq
      obtain rfl : declared.node = name := (Spanned.bare_eq_iff _ _).mp name_eq
      have typed : type.node = DataType.integer.keyword.toList :=
        (Spanned.bare_eq_iff _ _).mp type_eq
      rw [execute,
        Declaration.apply_scalar rfl (Option.map_eq_none_iff.mp bounds_eq) typed free]
      rfl
  | _ => cases same

theorem executeLine_assign (named : isIdentifier name = true) (plain : name ∉ Keyword.opening)
    {old : Value} (declared : m.store.find? name = some (.scalar .integer old)) :
    m.executeLine (name ++ " <- 0".toList) =
      ({ m with store := m.store.put name (.scalar .integer (.integer 0)) }, .ok true) := by
  have clean : Text.Clean "0".toList := by decide
  obtain ⟨found, same, line⟩ := m.executeLine_printed
    (s := .assign ⟨.variable name, ⟨0, 0⟩⟩ ⟨"0".toList, ⟨0, 0⟩⟩) ⟨⟨named, nofun⟩, plain, clean⟩
  have text : name ++ " <- 0".toList =
      Statement.printed (.assign ⟨.variable name, ⟨0, 0⟩⟩ ⟨"0".toList, ⟨0, 0⟩⟩) := by
    simp [Statement.printed, Target.display]
  rw [text, line]
  cases found with
  | assign target expr =>
      obtain ⟨target_eq, expr_eq⟩ := Statement.assign.inj same
      have scalar := Target.eq_variable_of_bare ((Spanned.bare_eq_iff _ _).mp target_eq)
      have zero : Expression.evaluateAt m.store expr = .ok (.integer 0) := by
        apply Expression.evaluateAt_of_evaluate
        rw [(Spanned.bare_eq_iff _ _).mp expr_eq]
        exact Expression.evaluate_zero m.store
      have written : Target.write m.store target (.integer 0) =
          .ok (m.store.put name (.scalar .integer (.integer 0))) := by
        rw [Target.write, show target.node = .variable name from scalar]
        show (m.store.setScalar name (.integer 0)).mapError _ = _
        rw [Store.setScalar_integer declared]
        rfl
      simp only [execute, zero, bind, Except.bind, written]
      rfl
  | _ => cases same

theorem executeLine_output (named : isIdentifier name = true)
    (unlimited : m.output.capacity = none) {type : DataType} {v : Value}
    (held : m.store.find? name = some (.scalar type v)) (set : v.isSet = true) :
    m.executeLine ("OUTPUT ".toList ++ name) =
      ({ m with output :=
          { m.output with written := m.output.written ++ Text.encode (v.display ++ ['\n']) } },
        .ok true) := by
  obtain ⟨found, same, line⟩ := m.executeLine_printed (s := .output [⟨name, ⟨0, 0⟩⟩])
    ⟨List.cons_ne_nil _ _, List.forall_mem_singleton.mpr
      ⟨Text.selfContained_of_isIdentifier named, Text.undivided_of_isIdentifier named⟩⟩
  have text : "OUTPUT ".toList ++ name = Statement.printed (.output [⟨name, ⟨0, 0⟩⟩]) := by
    have first : "OUTPUT ".toList = Keyword.output ++ " ".toList := by decide
    rw [first, Statement.printed, List.map_singleton, Text.commaSeparated,
      List.intercalate_singleton]
  rw [text, line]
  cases found with
  | output exprs =>
      obtain ⟨expr, rfl, expr_eq⟩ := List.map_eq_singleton_iff.mp (Statement.output.inj same)
      obtain rfl : expr.node = name := (Spanned.bare_eq_iff _ _).mp expr_eq
      have value := Expression.evaluateAt_of_evaluate (Expression.evaluate_name named held set)
      have shown : outputText m.store [expr] = .ok v.display := by
        simp [outputText, value]
      simp only [execute, writeValues, shown, Output.writeLine, Output.write, unlimited]
      rfl
  | _ => cases same

theorem executeLine_output_fails {line : Text} {expr : Spanned Text} {place : Span}
    (read : Statement.ofLine line = .ok (some ⟨.output [expr], place⟩)) {e : Failure}
    (failed : Expression.evaluateAt m.store expr = .error e) :
    m.executeLine line = (m, .error e) := by
  have shown : outputText m.store [expr] = .error e := by
    rw [outputText, List.mapM_cons, failed]
    rfl
  rw [executeLine, read]
  simp only [execute, writeValues, shown]
  rfl

/-- A line that begins with the word of another statement is that statement, and no assignment. -/
theorem executeLine_assign_opening {word : Text} (opens : word ∈ Keyword.opening) :
    ∃ e, m.executeLine (word ++ " <- 0".toList) = (m, .error e) := by
  have malformed {line : Text} {e : Failure} (failed : Statement.ofLine line = .error e) :
      ∃ e, m.executeLine line = (m, .error e) := by
    refine ⟨e, ?_⟩
    rw [executeLine, failed]
  simp only [Keyword.opening, List.mem_cons, List.not_mem_nil, or_false] at opens
  rcases opens with rfl | rfl | rfl | rfl
  · exact malformed (e := ⟨.malformedStatement .noDeclaration, some ⟨8, 12⟩⟩) (by decide +kernel)
  · exact malformed (e := ⟨.malformedStatement .noConstant, some ⟨9, 13⟩⟩) (by decide +kernel)
  · exact malformed (e := ⟨.malformedStatement (.invalidTarget "<- 0".toList), some ⟨6, 10⟩⟩)
      (by decide +kernel)
  · -- What is left of the arrow is an expression, and no token begins with `<`.
    have read : Statement.ofLine (Keyword.output ++ " <- 0".toList) =
        .ok (some ⟨.output [⟨"<- 0".toList, ⟨7, 11⟩⟩], ⟨0, 11⟩⟩) := by decide +kernel
    have pieces : Expression.segments "<- 0".toList = .ok [⟨"<- 0".toList, ⟨0, 4⟩⟩] := by
      decide +kernel
    have unread : tokenize "<- 0".toList =
        .error ⟨.malformedExpression (.unexpectedCharacter '<'), some ⟨0, 1⟩⟩ := by decide +kernel
    obtain ⟨e, failed⟩ : ∃ e, Expression.evaluate m.store "<- 0".toList = .error e := by
      rw [Expression.evaluate_eq_of_segments pieces, Expression.segmentAt,
        Expression.segmentValue_eq, unread]
      exact ⟨_, rfl⟩
    exact ⟨_, m.executeLine_output_fails read (congrArg (Except.mapError _) failed)⟩

/-- Every name that may be declared can be declared, assigned and shown, whatever the machine holds,
unless it is one of the words that open a statement: such a name can be declared, but no line is an
assignment to it. -/
theorem declarable_names_are_usable (unlimited : m.output.capacity = none)
    (free : m.store.checkDeclarable name = .ok ()) :
    let declared := m.executeLine ("DECLARE ".toList ++ name ++ " : INTEGER".toList)
    let assigned := declared.1.executeLine (name ++ " <- 0".toList)
    let shown := assigned.1.executeLine ("OUTPUT ".toList ++ name)
    ((declared.2 = .ok true ∧ assigned.2 = .ok true ∧ shown.2 = .ok true ∧
        shown.1.output.written = m.output.written ++ Text.encode "0\n".toList) ↔
      name ∉ Keyword.opening) ∧
    (name ∈ Keyword.opening →
      declared.2 = .ok true ∧ ∃ e, assigned = (declared.1, .error e)) := by
  have named := ((Store.checkDeclarable_eq_ok_iff _ _).mp free).1
  let fresh : Machine := { m with store := m.store.put name (.scalar .integer .unset) }
  intro declared assigned shown
  have first : declared = (fresh, .ok true) := m.executeLine_declare free
  have blocked : name ∈ Keyword.opening → ∃ e, assigned = (declared.1, .error e) :=
    declared.1.executeLine_assign_opening
  refine ⟨⟨?_, fun plain => ?_⟩, fun opens => ⟨by rw [first], blocked opens⟩⟩
  · rintro ⟨_, made, _⟩ opens
    obtain ⟨e, failed⟩ := blocked opens
    rw [failed] at made
    cases made
  · let zero : Machine :=
      { fresh with store := fresh.store.put name (.scalar .integer (.integer 0)) }
    have second : assigned = (zero, .ok true) := by
      have unset : fresh.store.find? name = some (.scalar .integer .unset) := by simp [fresh]
      simp only [assigned, first]
      exact fresh.executeLine_assign named plain unset
    have held : zero.store.find? name = some (.scalar .integer (.integer 0)) := by simp [zero]
    have third := zero.executeLine_output named unlimited held rfl
    rw [show (Value.integer 0).display ++ ['\n'] = "0\n".toList by decide +kernel] at third
    have last : shown = _ := (by simp only [shown, second] : shown = zero.executeLine _).trans third
    rw [first, second, last]
    exact ⟨rfl, rfl, rfl, rfl⟩

theorem declarable_names_are_usable_outputs :
    let declared :=
      furnished.executeLine ("DECLARE ".toList ++ "OUTPUTS".toList ++ " : INTEGER".toList)
    let assigned := declared.1.executeLine ("OUTPUTS".toList ++ " <- 0".toList)
    let shown := assigned.1.executeLine ("OUTPUT ".toList ++ "OUTPUTS".toList)
    furnished.store.checkDeclarable "OUTPUTS".toList = .ok () ∧
      "OUTPUTS".toList ∉ Keyword.opening ∧
      declared.2 = .ok true ∧ assigned.2 = .ok true ∧ shown.2 = .ok true ∧
      shown.1.output.written = furnished.output.written ++ Text.encode "0\n".toList := by
  intro declared assigned shown
  have free : furnished.store.checkDeclarable "OUTPUTS".toList = .ok () := by decide +kernel
  have plain : "OUTPUTS".toList ∉ Keyword.opening := by decide
  exact ⟨free, plain, (declarable_names_are_usable furnished rfl free).1.mpr plain⟩

/-- `INPUT` may be declared, but `INPUT <- 0` reads into a target that is no name. -/
theorem input_is_declarable_not_assignable :
    let m : Machine := {}
    let declared := m.executeLine "DECLARE INPUT : INTEGER".toList
    m.store.Reachable ∧ m.output.capacity = none ∧
      m.store.checkDeclarable "INPUT".toList = .ok () ∧ declared.2 = .ok true ∧
      (declared.1.executeLine "INPUT <- 0".toList).2 =
        .error ⟨.malformedStatement (.invalidTarget "<- 0".toList), some ⟨6, 10⟩⟩ :=
  ⟨Store.reachable_empty .strict, by decide +kernel⟩

end Machine

end Pseudocode
