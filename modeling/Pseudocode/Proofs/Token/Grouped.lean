import Pseudocode.Proofs.Infix.Summands
import Pseudocode.Proofs.Lexeme.Lexed
import Pseudocode.Token.Tokenize

set_option autoImplicit false

namespace Pseudocode

open Text (bytes slice)
open Lexeme (Lexed)

def Lexeme.name? : Lexeme → Option Text
  | .ident name => some name
  | _ => none

namespace Token

def name? : Token → Option Text
  | .ident name | .element name _ => some name
  | _ => none

theorem name?_of_ofLexeme {source : Text} {due : Bool} {l : Spanned Lexeme} {token : Token}
    (made : ofLexeme source due l = .ok token) : token.name? = l.node.name? := by
  obtain ⟨node, place⟩ := l
  cases node <;> cases made <;> rfl

/-- Whether the brackets balance after `depth` open ones. -/
def encloses : Nat → List (Spanned Lexeme) → Bool
  | depth, [] => depth == 0
  | depth, l :: rest =>
      match l.node with
      | .lbracket => encloses (depth + 1) rest
      | .rbracket =>
          match depth with
          | 0 => false
          | depth + 1 => encloses depth rest
      | _ => encloses depth rest

/-- `Grouped source due lexemes tokens`: the lexemes make these tokens; `due` says whether a minus
sign at the front is a negation. -/
inductive Grouped (source : Text) : Bool → List (Spanned Lexeme) → List (Spanned Token) → Prop where
  | nil (due : Bool) : Grouped source due [] []
  | element {due : Bool} {name index : Text} {place opening closing : Span}
      {inner rest : List (Spanned Lexeme)} {tokens : List (Spanned Token)}
      (enclosed : encloses 0 inner = true) (closed : ∀ l ∈ inner, l.node.isClosed = true)
      (inside : Lexed opening.stop index inner)
      (text : slice source ⟨opening.stop, closing.start⟩ = index) (written : Text.trim index ≠ [])
      (later : Grouped source false rest tokens) :
      Grouped source due
        (⟨.ident name, place⟩ :: ⟨.lbracket, opening⟩ :: (inner ++ ⟨.rbracket, closing⟩ :: rest))
        (⟨.element name ⟨index, ⟨opening.stop, closing.start⟩⟩, place.merge closing⟩ :: tokens)
  | single {due : Bool} {l : Spanned Lexeme} {token : Token} {rest : List (Spanned Lexeme)}
      {tokens : List (Spanned Token)} (made : ofLexeme source due l = .ok token)
      (later : Grouped source token.expectsOperand rest tokens) :
      Grouped source due (l :: rest) (⟨token, l.span⟩ :: tokens)

theorem groupIndex_append {source : Text} {i : OpenIndex} {depth : Nat}
    {inner : List (Spanned Lexeme)} (enclosed : encloses depth inner = true) (closing : Span)
    (rest : List (Spanned Lexeme)) :
    groupIndex source i depth (inner ++ ⟨.rbracket, closing⟩ :: rest) =
      groupIndex source i 0 (⟨.rbracket, closing⟩ :: rest) := by
  induction inner generalizing depth with
  | nil =>
      rw [beq_iff_eq.mp enclosed]
      rfl
  | cons l inner ih =>
      obtain ⟨node, place⟩ := l
      cases node with
      | lbracket => exact ih enclosed
      | rbracket =>
          cases depth with
          | zero => cases enclosed
          | succ depth => exact ih enclosed
      | _ => exact ih enclosed

/-- A bracket closes the index after `depth` others: the lexemes inside, and the tokens from it
on. -/
def ClosesIndex (source : Text) (i : OpenIndex) (depth : Nat) (lexemes : List (Spanned Lexeme))
    (tokens : List (Spanned Token)) : Prop :=
  ∃ inner closing rest token later, lexemes = inner ++ ⟨.rbracket, closing⟩ :: rest ∧
    encloses depth inner = true ∧ i.close source closing = .ok token ∧
    group source false rest = .ok later ∧ tokens = token :: later

theorem ClosesIndex.cons {source : Text} {i : OpenIndex} {depth next : Nat} {l : Spanned Lexeme}
    {rest : List (Spanned Lexeme)} {tokens : List (Spanned Token)}
    (closes : ClosesIndex source i next rest tokens)
    (counted : ∀ inner, encloses next inner = true → encloses depth (l :: inner) = true) :
    ClosesIndex source i depth (l :: rest) tokens := by
  obtain ⟨inner, closing, after, token, later, rfl, enclosed, others⟩ := closes
  exact ⟨l :: inner, closing, after, token, later, rfl, counted inner enclosed, others⟩

theorem closesIndex_of_groupIndex {source : Text} {i : OpenIndex} {depth : Nat}
    {lexemes : List (Spanned Lexeme)} {tokens : List (Spanned Token)}
    (made : groupIndex source i depth lexemes = .ok tokens) :
    ClosesIndex source i depth lexemes tokens := by
  induction lexemes generalizing depth with
  | nil => cases made
  | cons l rest ih =>
      obtain ⟨node, place⟩ := l
      cases node with
      | lbracket => exact (ih made).cons fun _ enclosed => enclosed
      | rbracket =>
          cases depth with
          | zero =>
              rw [groupIndex] at made
              obtain ⟨token, closes, made⟩ := bind_eq_ok made
              obtain ⟨later, grouped, made⟩ := bind_eq_ok made
              cases made
              exact ⟨[], place, rest, token, later, rfl, rfl, closes, grouped, rfl⟩
          | succ depth => exact (ih made).cons fun _ enclosed => enclosed
      | _ => exact (ih made).cons fun _ enclosed => enclosed

theorem close_eq_ok {source : Text} {i : OpenIndex} {closing : Span} {token : Spanned Token}
    (closes : i.close source closing = .ok token) :
    Text.trim (slice source ⟨i.opening.stop, closing.start⟩) ≠ [] ∧
      token = ⟨.element i.name ⟨slice source ⟨i.opening.stop, closing.start⟩,
        ⟨i.opening.stop, closing.start⟩⟩, i.nameSpan.merge closing⟩ := by
  unfold OpenIndex.close at closes
  dsimp only at closes
  split at closes
  · cases closes
  · rename_i full
    cases closes
    refine ⟨fun none => full ?_, rfl⟩
    rw [none]
    rfl

/-- The lexemes of a last part of the source. -/
def LexedIn (source : Text) (lexemes : List (Spanned Lexeme)) : Prop :=
  ∃ front part, source = front ++ part ∧ Lexed (bytes front) part lexemes

theorem LexedIn.after {source : Text} (front : List (Spanned Lexeme))
    {back : List (Spanned Lexeme)} {x : Spanned Lexeme}
    (lexed : LexedIn source (front ++ x :: back)) : LexedIn source back := by
  obtain ⟨before, part, rfl, lexed⟩ := lexed
  obtain ⟨u, v, rfl, place, _, after, _⟩ := lexed.cutAt
  refine ⟨before ++ (u ++ x.node.written), v, by simp only [List.append_assoc], ?_⟩
  rw [Text.bytes_append, Text.bytes_append, ← Nat.add_assoc]
  rw [place] at after
  exact after

/-- Two lexemes of the source and the text between them, which consists of the lexemes between
them. -/
theorem LexedIn.cutBetween {source : Text} (front : List (Spanned Lexeme))
    {inner back : List (Spanned Lexeme)} {x y : Spanned Lexeme}
    (lexed : LexedIn source (front ++ x :: (inner ++ y :: back))) :
    ∃ before index after, source = before ++ (index ++ after) ∧ x.span.stop = bytes before ∧
      y.span.start = bytes before + bytes index ∧ Lexed x.span.stop index inner ∧
        ∀ l ∈ inner, l.node.isClosed = true := by
  obtain ⟨before, part, rfl, lexed⟩ := lexed
  obtain ⟨u, v, rfl, opening, _, after, _⟩ := lexed.cutAt
  obtain ⟨index, w, rfl, closing, inside, _, closed⟩ := after.cutAt
  have start : x.span.stop = bytes (before ++ (u ++ x.node.written)) := by
    rw [opening, Text.bytes_append, Text.bytes_append, Nat.add_assoc]
  refine ⟨before ++ (u ++ x.node.written), index, y.node.written ++ w, ?_, start, ?_, inside,
    closed⟩
  · simp only [List.append_assoc]
  · rw [closing, start]

theorem LexedIn.between {source : Text} (front : List (Spanned Lexeme))
    {inner back : List (Spanned Lexeme)} {x y : Spanned Lexeme}
    (lexed : LexedIn source (front ++ x :: (inner ++ y :: back))) :
    Lexed x.span.stop (slice source ⟨x.span.stop, y.span.start⟩) inner ∧
      ∀ l ∈ inner, l.node.isClosed = true := by
  obtain ⟨before, index, after, same, stop, start, inside, closed⟩ := lexed.cutBetween front
  have text := Text.slice_append before index after
  rw [List.append_assoc, ← same, ← start, ← stop] at text
  rw [text]
  exact ⟨inside, closed⟩

theorem grouped_of_group {source : Text} {due : Bool} {lexemes : List (Spanned Lexeme)}
    {tokens : List (Spanned Token)} (lexed : LexedIn source lexemes)
    (made : group source due lexemes = .ok tokens) : Grouped source due lexemes tokens := by
  -- An element takes several lexemes at once, so the induction is on their number.
  induction size : lexemes.length using Nat.strongRecOn generalizing due lexemes tokens with
  | ind n ih =>
      by_cases indexed : ∃ name place opening rest,
          lexemes = ⟨.ident name, place⟩ :: ⟨.lbracket, opening⟩ :: rest
      · obtain ⟨name, place, opening, rest, rfl⟩ := indexed
        rw [group] at made
        obtain ⟨inner, closing, after, token, later, rfl, enclosed, closes, grouped, rfl⟩ :=
          closesIndex_of_groupIndex made
        obtain ⟨written, rfl⟩ := close_eq_ok closes
        obtain ⟨inside, closed⟩ := LexedIn.between [⟨.ident name, place⟩] lexed
        have onward : LexedIn source after :=
          LexedIn.after (⟨.ident name, place⟩ :: ⟨.lbracket, opening⟩ :: inner) lexed
        have shorter : after.length < n := by
          rw [← size]
          simp only [List.length_cons, List.length_append]
          omega
        exact .element enclosed closed inside rfl written (ih _ shorter onward grouped rfl)
      · cases lexemes with
        | nil =>
            cases made
            exact .nil due
        | cons l rest =>
            rw [group] at made
            · obtain ⟨token, first, made⟩ := bind_eq_ok made
              obtain ⟨later, second, made⟩ := bind_eq_ok made
              cases made
              have onward := LexedIn.after [] lexed
              have shorter : rest.length < n := by
                rw [← size, List.length_cons]
                omega
              exact .single first (ih _ shorter onward second rfl)
            · rintro name place opening others rfl rfl
              exact indexed ⟨name, place, opening, others, rfl⟩

theorem not_grouped_lbracket {source : Text} {due : Bool} {opening : Span}
    {rest : List (Spanned Lexeme)} {tokens : List (Spanned Token)} :
    ¬ Grouped source due (⟨.lbracket, opening⟩ :: rest) tokens := by
  intro grouped
  cases grouped with
  | single made _ => cases made

theorem Grouped.group {source : Text} {due : Bool} {lexemes : List (Spanned Lexeme)}
    {tokens : List (Spanned Token)} (grouped : Grouped source due lexemes tokens) :
    group source due lexemes = .ok tokens := by
  induction grouped with
  | nil due => rfl
  | @element _ name index place opening closing inner rest _ enclosed _ _ text written _ ih =>
      have full : ¬ (Text.trim index).isEmpty = true := by
        rw [List.isEmpty_iff]
        exact written
      rw [Token.group, groupIndex_append enclosed, groupIndex, OpenIndex.close, text, if_neg full,
        ih]
      rfl
  | @single due l token rest tokens made later ih =>
      rw [Token.group, made]
      · change (Token.group source token.expectsOperand rest >>= _) = _
        rw [ih]
        rfl
      · rintro name place opening others rfl rfl
        exact not_grouped_lbracket later

end Token

open Token (Grouped)

theorem exists_grouped_of_tokenize {t : Text} {tokens : List (Spanned Token)}
    (read : tokenize t = .ok tokens) :
    ∃ lexemes, Lexed 0 t lexemes ∧ Grouped t true lexemes tokens := by
  unfold tokenize at read
  dsimp only at read
  split at read
  · cases read
  · rename_i whole
    have lexed := Lexeme.lexed_lex whole
    exact ⟨_, lexed, Token.grouped_of_group ⟨[], t, rfl, lexed⟩ read⟩

theorem tokenize_of_grouped {t : Text} {lexemes : List (Spanned Lexeme)}
    {tokens : List (Spanned Token)} (lexed : Lexed 0 t lexemes)
    (grouped : Grouped t true lexemes tokens) : tokenize t = .ok tokens := by
  rw [tokenize, lexed.lex_eq]
  exact grouped.group

namespace Token

theorem isClosed_of_ofLexeme {source : Text} {due : Bool} {l : Spanned Lexeme} {token : Token}
    (made : ofLexeme source due l = .ok token) : l.node.isClosed = true := by
  unfold ofLexeme at made
  split at made <;> first | (rename_i node; rw [node]; rfl) | cases made

/-- A string that is not closed makes no token. -/
theorem Grouped.closed {source : Text} {due : Bool} {lexemes : List (Spanned Lexeme)}
    {tokens : List (Spanned Token)} (grouped : Grouped source due lexemes tokens) :
    ∀ l ∈ lexemes, l.node.isClosed = true := by
  induction grouped with
  | nil due => exact List.forall_mem_nil _
  | element _ closed _ _ _ _ ih =>
      simp only [List.forall_mem_cons, List.forall_mem_append]
      exact ⟨rfl, rfl, closed, rfl, ih⟩
  | single made _ ih => exact List.forall_mem_cons.mpr ⟨isClosed_of_ofLexeme made, ih⟩

theorem weight_of_ofLexeme {source : Text} {due : Bool} {l : Spanned Lexeme} {token : Token}
    (made : ofLexeme source due l = .ok token) : l.node.weight = token.symbol.weight := by
  unfold ofLexeme at made
  split at made <;> rename_i node <;> rw [node] <;> cases made <;> rfl

theorem isPlus_of_ofLexeme {source : Text} {due : Bool} {l : Spanned Lexeme} {token : Token}
    (made : ofLexeme source due l = .ok token) : (l.node == .plus) = token.symbol.isPlus := by
  unfold ofLexeme at made
  split at made <;> rename_i node <;> rw [node] <;> cases made <;> first | rfl | (cases due <;> rfl)

/-- Inside every index, parentheses and brackets close and never more than were opened. -/
def Sheltered (tokens : List (Spanned Token)) : Prop :=
  ∀ t ∈ tokens, ∀ index, t.node.index? = some index → ∀ pos inner, Lexed pos index.node inner →
    Scan.Nests (·.node.weight) 0 inner

theorem Sheltered.tail {t : Spanned Token} {tokens : List (Spanned Token)}
    (sheltered : Sheltered (t :: tokens)) : Sheltered tokens :=
  fun u member => sheltered u (List.mem_cons_of_mem t member)

/-- If the parentheses among the tokens close, then so do those among the lexemes, with the
brackets. -/
theorem Grouped.nests {source : Text} {due : Bool} {lexemes : List (Spanned Lexeme)}
    {tokens : List (Spanned Token)} (grouped : Grouped source due lexemes tokens)
    (sheltered : Sheltered tokens) {d : Int} (nests : Infix.Nests d (symbols tokens)) :
    Scan.Nests (·.node.weight) d lexemes := by
  induction grouped generalizing d with
  | nil due => exact nests
  | @element due name index place opening closing inner rest tokens _ _ inside _ _ _ ih =>
      obtain ⟨above, later⟩ := nests.of_neutral rfl
      have after : Scan.Nests (fun l : Spanned Lexeme => l.node.weight) (d + 1)
          (⟨.rbracket, closing⟩ :: rest) :=
        .cons (Int.add_sub_cancel d 1) above (ih sheltered.tail later)
      have within := sheltered _ List.mem_cons_self _ rfl _ _ inside
      have index_nests := within.append after (by omega)
      rw [Int.zero_add] at index_nests
      have opened : Scan.Nests (fun l : Spanned Lexeme => l.node.weight) d
          (⟨.lbracket, opening⟩ :: (inner ++ ⟨.rbracket, closing⟩ :: rest)) :=
        .cons (e := d + 1) rfl (by omega) index_nests
      exact .cons (Int.add_zero d) above opened
  | @single due l token rest tokens made _ ih =>
      have weight := weight_of_ofLexeme made
      exact .cons (congrArg (d + ·) weight) nests.1 (ih sheltered.tail nests.2)

def scan : Scan Int (Spanned Token) :=
  Infix.scan.comap (Spanned.map Token.symbol)

/-- Nothing is cut between the brackets of an index. -/
theorem passes_element {inner : List (Spanned Lexeme)} {d : Int}
    (within : Scan.Nests (·.node.weight) 0 inner) (above : 0 ≤ d) (name : Text)
    (place opening closing : Span) :
    let lexemes := ⟨.ident name, place⟩ :: ⟨.lbracket, opening⟩ :: (inner ++ [⟨.rbracket, closing⟩])
    Lexeme.scan.Passes d lexemes ∧ Lexeme.scan.run d lexemes = d := by
  have named : Lexeme.scan.next d ⟨.ident name, place⟩ = d := Int.add_zero d
  have opened : Lexeme.scan.next d ⟨.lbracket, opening⟩ = d + 1 := rfl
  have inside := within.passes (·.node == .plus) (Int.le_refl 0) (b := d + 1) (by omega)
  have reached := within.run (·.node == .plus) (d + 1)
  rw [Int.zero_add] at inside reached
  have unmarked : ∀ {l : Spanned Lexeme} {e : Int}, (l.node == .plus) = false →
      Lexeme.scan.cutsAt e l = false := by
    intro l e other
    refine Scan.weighing_passes fun plus => ?_
    rw [other] at plus
    cases plus
  intro lexemes
  constructor
  · rw [Scan.passes_cons_iff, named, Scan.passes_cons_iff, opened, Scan.passes_append_iff,
      Scan.passes_cons_iff]
    exact ⟨unmarked rfl, unmarked rfl, inside, unmarked rfl, rfl⟩
  · rw [Scan.run_cons, named, Scan.run_cons, opened, Scan.run_append]
    change Lexeme.scan.run (d + 1) inner + -1 = d
    rw [Lexeme.scan, reached]
    omega

theorem cut_element {inner : List (Spanned Lexeme)} {d : Int}
    (within : Scan.Nests (·.node.weight) 0 inner) (above : 0 ≤ d) (name : Text)
    (place opening closing : Span) (rest : List (Spanned Lexeme)) :
    Lexeme.scan.cut d
        (⟨.ident name, place⟩ :: ⟨.lbracket, opening⟩ :: (inner ++ ⟨.rbracket, closing⟩ :: rest)) =
      (Lexeme.scan.cut d rest).modifyHead fun piece =>
        ⟨.ident name, place⟩ :: ⟨.lbracket, opening⟩ ::
          (inner ++ ⟨.rbracket, closing⟩ :: piece) := by
  obtain ⟨passes, run⟩ := passes_element within above name place opening closing
  have split : ∀ after, ⟨.ident name, place⟩ :: ⟨.lbracket, opening⟩ ::
      (inner ++ ⟨.rbracket, closing⟩ :: after) =
      ⟨.ident name, place⟩ :: ⟨.lbracket, opening⟩ ::
        (inner ++ [⟨.rbracket, closing⟩]) ++ after := by
    simp
  rw [funext split, split rest, Scan.cut_append_of_passes _ passes, run]

/-- Lexemes and tokens are cut at the same pluses, and the lexemes between two cuts make the tokens
between them. -/
theorem Grouped.cut {source : Text} {due : Bool} {lexemes : List (Spanned Lexeme)}
    {tokens : List (Spanned Token)} (grouped : Grouped source due lexemes tokens)
    (sheltered : Sheltered tokens) {d : Int} (above : 0 ≤ d)
    (nests : Infix.Nests d (symbols tokens)) :
    ∃ piece pieces group groups, Lexeme.scan.cut d lexemes = piece :: pieces ∧
      scan.cut d tokens = group :: groups ∧ Grouped source due piece group ∧
      List.Forall₂ (Grouped source true) pieces groups := by
  induction grouped generalizing d with
  | nil due => exact ⟨[], [], [], [], rfl, rfl, .nil due, .nil⟩
  | @element due name index place opening closing inner rest tokens enclosed closed inside text
      written _ ih =>
      obtain ⟨_, later⟩ := nests.of_neutral rfl
      obtain ⟨piece, pieces, group, groups, cut, parted, first, others⟩ :=
        ih sheltered.tail above later
      have within := sheltered _ List.mem_cons_self _ rfl _ _ inside
      have joined : Grouped source due
          (⟨.ident name, place⟩ :: ⟨.lbracket, opening⟩ :: (inner ++ ⟨.rbracket, closing⟩ :: piece))
          (⟨.element name ⟨index, ⟨opening.stop, closing.start⟩⟩, place.merge closing⟩ :: group) :=
        .element enclosed closed inside text written first
      have unmoved : scan.next d
          ⟨.element name ⟨index, ⟨opening.stop, closing.start⟩⟩, place.merge closing⟩ = d :=
        Int.add_zero d
      refine ⟨_, pieces, _, groups, ?_, ?_, joined, others⟩
      · rw [cut_element within above, cut, List.modifyHead_cons]
      · rw [Scan.cut_cons_of_passes _ rfl, unmoved, parted, List.modifyHead_cons]
  | @single due l token rest tokens made _ ih =>
      have step : scan.next d ⟨token, l.span⟩ = Lexeme.scan.next d l :=
        congrArg (d + ·) (weight_of_ofLexeme made).symm
      have same : scan.cutsAt d ⟨token, l.span⟩ = Lexeme.scan.cutsAt d l :=
        congrArg (· && d == 0) (isPlus_of_ofLexeme made).symm
      have later : Infix.Nests (scan.next d ⟨token, l.span⟩) (symbols tokens) := nests.2
      have above : 0 ≤ scan.next d ⟨token, l.span⟩ := nests.1
      obtain ⟨piece, pieces, group, groups, cut, parted, first, others⟩ :=
        ih sheltered.tail above later
      rw [step] at cut
      cases here : Lexeme.scan.cutsAt d l with
      | true =>
          have plus : l.node = .plus := ((Lexeme.scan_cutsAt_iff d l).mp here).1
          obtain rfl : .op .add = token := by
            rw [ofLexeme, plus] at made
            exact Except.ok.inj made
          refine ⟨[], piece :: pieces, [], group :: groups, ?_, ?_, .nil due, .cons first others⟩
          · rw [Scan.cut_cons_of_cutsAt _ here, cut]
          · rw [Scan.cut_cons_of_cutsAt _ (same.trans here), parted]
      | false =>
          refine ⟨l :: piece, pieces, ⟨token, l.span⟩ :: group, groups, ?_, ?_, .single made first,
            others⟩
          · rw [Scan.cut_cons_of_passes _ here, cut, List.modifyHead_cons]
          · rw [Scan.cut_cons_of_passes _ (same.trans here), parted, List.modifyHead_cons]

/-- The same token in a text that begins `offset` bytes later. -/
def unshift (offset : Nat) : Token → Token
  | .element name index => .element name (index.unshift offset)
  | t => t

def unshiftAt (offset : Nat) (t : Spanned Token) : Spanned Token :=
  ⟨t.node.unshift offset, t.span.unshift offset⟩

theorem unshift_of_ofLexeme {source : Text} {due : Bool} {l : Spanned Lexeme} {token : Token}
    (made : ofLexeme source due l = .ok token) (offset : Nat) : token.unshift offset = token := by
  cases token with
  | element name index => cases index?_ofLexeme made
  | _ => rfl

theorem ofLexeme_unshift {source : Text} {due : Bool} {l : Spanned Lexeme} {token : Token}
    (made : ofLexeme source due l = .ok token) (other : Text) (offset : Nat) :
    ofLexeme other due (l.unshift offset) = .ok token := by
  obtain ⟨node, place⟩ := l
  cases node <;> first | exact made | cases made

theorem encloses_map_unshift (offset depth : Nat) (lexemes : List (Spanned Lexeme)) :
    encloses depth (lexemes.map (·.unshift offset)) = encloses depth lexemes := by
  induction lexemes generalizing depth with
  | nil => rfl
  | cons l rest ih =>
      obtain ⟨node, place⟩ := l
      cases node with
      | lbracket => exact ih (depth + 1)
      | rbracket =>
          cases depth with
          | zero => rfl
          | succ depth => exact ih depth
      | _ => exact ih depth

/-- What stands between two lexemes of one text stands between them in another, too. -/
def Agree (source other : Text) (offset : Nat) (lexemes : List (Spanned Lexeme)) : Prop :=
  lexemes.Pairwise fun x y =>
    slice other ⟨x.span.stop - offset, y.span.start - offset⟩ =
      slice source ⟨x.span.stop, y.span.start⟩

/-- Grouping the same lexemes of another text, which begins `offset` bytes later. -/
theorem Grouped.unshift {source other : Text} {due : Bool} {lexemes : List (Spanned Lexeme)}
    {tokens : List (Spanned Token)} {offset : Nat} (grouped : Grouped source due lexemes tokens)
    (agree : Agree source other offset lexemes) (after : ∀ l ∈ lexemes, offset ≤ l.span.stop) :
    Grouped other due (lexemes.map (·.unshift offset)) (tokens.map (unshiftAt offset)) := by
  induction grouped with
  | nil due => exact .nil due
  | @element due name index place opening closing inner rest tokens enclosed closed inside text
      written _ ih =>
      have opened : offset ≤ opening.stop := after ⟨.lbracket, opening⟩ (by simp)
      have within : slice other ⟨opening.stop - offset, closing.start - offset⟩ = index :=
        ((List.pairwise_cons.mp agree.tail).1 ⟨.rbracket, closing⟩ (by simp)).trans text
      have onward : Grouped other false (rest.map (·.unshift offset))
          (tokens.map (unshiftAt offset)) :=
        ih (List.pairwise_append.mp agree.tail.tail).2.1.tail
          fun l member => after l (by simp [member])
      have place_eq := Span.unshift_merge place closing offset
      rw [List.map_cons, List.map_cons, List.map_append, List.map_cons, List.map_cons, unshiftAt,
        place_eq]
      refine .element ?_ ?_ (inside.unshift opened) within written onward
      · rw [encloses_map_unshift]
        exact enclosed
      · intro l member
        obtain ⟨x, inner_member, rfl⟩ := List.mem_map.mp member
        exact closed x inner_member
  | @single due l token rest tokens made _ ih =>
      have later := ih agree.tail (List.forall_mem_cons.mp after).2
      have same := unshift_of_ofLexeme made offset
      rw [List.map_cons, List.map_cons, unshiftAt, same]
      exact .single (ofLexeme_unshift made other offset) later

end Token

end Pseudocode
