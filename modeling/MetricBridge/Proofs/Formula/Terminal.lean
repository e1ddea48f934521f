import MetricBridge.Formula.Grammar

namespace MetricBridge.Formula

/-- A symbol of the source as a tree keeps it: a number by its value, a string by its content. -/
inductive Terminal where
  | number (value : Literal)
  | string (value : Text)
  | name (value : Text)
  | key (value : Text)
  | operator (op : Text)
  | mark (d : Delimiter)

/-- A lexeme stands for a symbol. A semicolon separates statements and is no operator. -/
inductive Lexeme.Denotes : Lexeme → Terminal → Prop
  | number {literal value} (h : Rule.number literal = .ok value) :
      Denotes (.number literal) (.number value)
  | string (value) : Denotes (.string value) (.string value)
  | name (value) : Denotes (.name value) (.name value)
  | quotedKey (value) : Denotes (.string value) (.key value)
  | bareKey (value) : Denotes (.name value) (.key value)
  | operator {l op} (h : l.operator? = some op) (hop : op ≠ lit ";") : Denotes l (.operator op)
  | mark (d) : Denotes (.delimiter d) (.mark d)

namespace Lexeme.Denotes

variable {l : Lexeme} {m : Terminal}

theorem of_mark {d : Delimiter} (h : l.Denotes (.mark d)) : l = .delimiter d := by
  cases h
  rfl

theorem of_name {name : Text} (h : l.Denotes (.name name)) : l = .name name := by
  cases h
  rfl

theorem of_number {v : Literal} (h : l.Denotes (.number v)) :
    ∃ literal, l = .number literal ∧ Rule.number literal = .ok v := by
  cases h with | number hv => exact ⟨_, rfl, hv⟩

theorem of_string {t : Text} (h : l.Denotes (.string t)) : l = .string t := by
  cases h
  rfl

theorem of_key {key : Text} (h : l.Denotes (.key key)) : l = .string key ∨ l = .name key := by
  cases h with
  | quotedKey => exact .inl rfl
  | bareKey => exact .inr rfl

theorem of_operator {op : Text} (h : l.Denotes (.operator op)) : l.operator? = some op := by
  cases h with | operator hop => exact hop

theorem ne_newline (h : l.Denotes m) : l ≠ .newline := by
  rintro rfl
  cases h with | operator hop => cases hop

theorem ne_finish (h : l.Denotes m) : l ≠ .finish := by
  rintro rfl
  cases h with | operator hop => cases hop

end Lexeme.Denotes

def Literal.terminal : Literal → Terminal
  | int n => .number (.int n)
  | float x => .number (.float x)
  | string t => .string t
  | bool true => .name "true"
  | bool false => .name "false"
  | null => .name "null"

namespace Expr

abbrev markedBy (d : Delimiter) (pieces : List (List Terminal)) : List Terminal :=
  List.intercalate [.mark d] pieces

abbrev bracketed (opening closing : Delimiter) (piece : List Terminal) : List Terminal :=
  .mark opening :: piece ++ [.mark closing]

def chained : List Text → List (List Terminal) → List Terminal
  | op :: ops, piece :: pieces => .operator op :: piece ++ chained ops pieces
  | _, _ => []

mutual

/-- The symbols of a tree in the order of the source. Statements have a semicolon between them. -/
def terminals : Expr → List Terminal
  | constant value => [value.terminal]
  | symbol name => [.name name]
  | index [constant (.string name)] true => [.mark .dot, .name name]
  | index dimensions _ => bracketed .openBracket .closeBracket (markedBy .comma (pieces dimensions))
  | accessor base subscript => terminals base ++ terminals subscript
  | conditional condition whenTrue whenFalse =>
    terminals condition ++ .mark .question :: terminals whenTrue ++
      .mark .colon :: terminals whenFalse
  | operator op fn [arg] =>
    if fn = .factorial then terminals arg ++ [.operator op] else .operator op :: terminals arg
  | operator op _ [left, right] => terminals left ++ .operator op :: terminals right
  | operator op _ args => List.intercalate [.operator op] (pieces args)
  | parenthesis content => bracketed .openParen .closeParen (terminals content)
  | relational _ [] _ => []
  | relational _ (first :: params) ops => terminals first ++ chained ops (pieces params)
  | call callee args =>
    terminals callee ++ bracketed .openParen .closeParen (markedBy .comma (pieces args))
  | array items => bracketed .openBracket .closeBracket (markedBy .comma (pieces items))
  | object properties =>
    bracketed .openBrace .closeBrace (markedBy .comma (propertyPieces properties))
  | assignment target value => terminals target ++ .mark .assign :: terminals value
  | definition name params body =>
    .name name :: bracketed .openParen .closeParen
      (markedBy .comma (params.map fun param => [.name param])) ++ .mark .assign :: terminals body
  | block statements => markedBy .semicolon (pieces statements)
  | range first step last => markedBy .colon (terminals first :: stepPieces step ++ [terminals last])
  | foreign _ => []
termination_by structural e => e

def pieces : List Expr → List (List Terminal)
  | [] => []
  | e :: es => terminals e :: pieces es
termination_by structural es => es

def propertyPieces : List (Text × Expr) → List (List Terminal)
  | [] => []
  | (key, e) :: ps => (.key key :: .mark .colon :: terminals e) :: propertyPieces ps
termination_by structural ps => ps

def stepPieces : Option Expr → List (List Terminal)
  | none => []
  | some e => [terminals e]
termination_by structural step => step

end

theorem pieces_eq_map (es : List Expr) : pieces es = es.map terminals := by
  induction es with
  | nil => rfl
  | cons e es ih => rw [pieces, ih, List.map_cons]

theorem propertyPieces_eq_map (ps : List (Text × Expr)) :
    propertyPieces ps = ps.map fun p => .key p.1 :: .mark .colon :: p.2.terminals := by
  induction ps with
  | nil => rfl
  | cons p ps ih => rw [propertyPieces, ih, List.map_cons]

@[simp] theorem terminals_brackets (dimensions : List Expr) :
    (index dimensions false).terminals =
      bracketed .openBracket .closeBracket (markedBy .comma (pieces dimensions)) := by
  simp [terminals]

theorem markedBy_cons (d : Delimiter) (piece : List Terminal) (pieces : List (List Terminal)) :
    markedBy d (piece :: pieces) = piece ++ pieces.flatMap (.mark d :: ·) := by
  induction pieces generalizing piece with
  | nil => simp
  | cons piece' pieces ih => rw [markedBy, List.intercalate_cons_cons, ← markedBy, ih]; simp

theorem mem_markedBy {d : Delimiter} {m : Terminal} {pieces : List (List Terminal)}
    {piece : List Terminal} (hpiece : piece ∈ pieces) (hm : m ∈ piece) :
    m ∈ markedBy d pieces := by
  cases pieces with
  | nil => cases hpiece
  | cons piece' pieces =>
      rw [markedBy_cons]
      rcases List.mem_cons.mp hpiece with rfl | hpiece
      · exact List.mem_append_left _ hm
      · refine List.mem_append_right _ (List.mem_flatMap.mpr ⟨_, hpiece, ?_⟩)
        exact List.mem_cons_of_mem _ hm

theorem mem_pieces {es : List Expr} {e : Expr} (he : e ∈ es) : e.terminals ∈ pieces es := by
  rw [pieces_eq_map]
  exact List.mem_map_of_mem he

theorem mem_chained {links : List (Text × Operation × Expr)} {k : Text × Operation × Expr}
    {m : Terminal} (hk : k ∈ links) (hm : m ∈ k.2.2.terminals) :
    m ∈ chained (links.map (·.1)) (pieces (links.map (·.2.2))) := by
  induction links with
  | nil => cases hk
  | cons k' links ih =>
      rcases List.mem_cons.mp hk with rfl | hk
      · simp [chained, pieces, hm]
      · simp [chained, pieces, ih hk]

def followingProperties (first : Bool) (properties : List (Text × Expr)) : List Terminal :=
  if first then markedBy .comma (propertyPieces properties)
  else (propertyPieces properties).flatMap (.mark .comma :: ·)

theorem followingProperties_cons (first : Bool) (key : Text) (value : Expr)
    (more : List (Text × Expr)) :
    followingProperties first ((key, value) :: more) =
      (if first then [] else [.mark .comma]) ++
        (.key key :: .mark .colon :: value.terminals) ++ followingProperties false more := by
  cases first <;> simp [followingProperties, propertyPieces, markedBy_cons]

end Expr

end MetricBridge.Formula
