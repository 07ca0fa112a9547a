import RexLang.DotSafety
import RexLang.ForestTraversal
import RexLang.JoinedLists

/-!
# Written documents of DOT

The statements of a document in their scopes.  A document is read as it is meant if and
only if the texts of its statements are safe, and its statements are those of the graph
and of the subgraphs that a walk from the roots visits.
-/

namespace RexLang.Graphviz

/-! ## Statements in their scopes -/

/-- A statement without its body. -/
inductive DotEntry where
  | attributes (target : DefaultTarget) (attributes : WrittenAttributes)
  | node (id : QuotedText) (attributes : WrittenAttributes)
  | edge (source target : WrittenEndpoint) (attributes : WrittenAttributes)
  | subgraph (key : String) (name : Option QuotedText)

mutual

/-- A statement and those of its body, each with the key of the subgraph around it. -/
def Statement.scoped (scope : Option String) : Statement → List (Option String × DotEntry)
  | .attributes target attributes => [(scope, .attributes target attributes)]
  | .node id attributes => [(scope, .node id attributes)]
  | .edge source target attributes => [(scope, .edge source target attributes)]
  | .subgraph key name body => (scope, .subgraph key name) :: bodyScoped (some key) body

def bodyScoped (scope : Option String) : List Statement → List (Option String × DotEntry)
  | [] => []
  | statement :: body => statement.scoped scope ++ bodyScoped scope body

end

theorem bodyScoped_eq (scope : Option String) (body : List Statement) :
    bodyScoped scope body = body.flatMap (Statement.scoped scope) := by
  induction body with
  | nil => rfl
  | cons statement body hypothesis => rw [bodyScoped, hypothesis, List.flatMap_cons]

/-! ## Plain pieces -/

def PlainPieces (pieces : List DotPiece) : Prop :=
  ∀ piece ∈ pieces, dotRules.PlainPiece piece

def SafePieces (pieces : List DotPiece) : Prop :=
  ∀ piece ∈ pieces, dotRules.SafePiece piece

section Pieces

@[simp]
theorem plainPieces_nil : PlainPieces [] := by
  simp [PlainPieces]

@[simp]
theorem plainPieces_append (first second : List DotPiece) :
    PlainPieces (first ++ second) ↔ PlainPieces first ∧ PlainPieces second :=
  List.forall_mem_append

@[simp]
theorem plainPieces_literal (literal : DotLiteral) (pieces : List DotPiece) :
    PlainPieces (.literal literal :: pieces) ↔ PlainPieces pieces := by
  simp [PlainPieces, LiteralRules.PlainPiece]

@[simp]
theorem plainPieces_quoted (text : QuotedText) (pieces : List DotPiece) :
    PlainPieces (quotedPiece text :: pieces) ↔ PlainPieces pieces :=
  plainPieces_literal _ pieces

/-- No character of the text opens a literal. -/
def PlainRaw (text : String) : Prop :=
  '"' ∉ text.toList ∧ '<' ∉ text.toList

instance (text : String) : Decidable (PlainRaw text) :=
  inferInstanceAs (Decidable (_ ∧ _))

@[simp]
theorem plainPieces_raw {text : String} (plain : PlainRaw text) (pieces : List DotPiece) :
    PlainPieces (.raw text :: pieces) ↔ PlainPieces pieces := by
  have isPlain : dotRules.PlainPiece (.raw text) := by
    intro symbol member
    constructor
    · rintro rfl
      exact plain.1 member
    · rintro rfl
      exact plain.2 member
  exact List.forall_mem_cons.trans (and_iff_right isPlain)

@[simp]
theorem plainPieces_indent (depth : Nat) (pieces : List DotPiece) :
    PlainPieces (indentPiece depth :: pieces) ↔ PlainPieces pieces := by
  refine plainPieces_raw ⟨?_, ?_⟩ pieces
  · simp [List.mem_replicate]
  · simp [List.mem_replicate]

theorem plainPieces_intercalate {text : String} (plain : PlainRaw text)
    {lists : List (List DotPiece)} :
    PlainPieces ([.raw text].intercalate lists) ↔ ∀ list ∈ lists, PlainPieces list :=
  forall_mem_intercalate ((plainPieces_raw plain []).mpr plainPieces_nil)

@[simp]
theorem plainRaw_targetText (target : DefaultTarget) : PlainRaw (targetText target) := by
  cases target <;> decide

@[simp]
theorem plainRaw_edgeOperator (kind : GraphKind) : PlainRaw (edgeOperator kind) := by
  cases kind <;> decide

@[simp]
theorem plainRaw_compassText (point : CompassPoint) : PlainRaw (compassText point) := by
  cases point <;> decide

@[simp]
theorem plainPieces_attributes (attributes : WrittenAttributes) :
    PlainPieces (attributesPieces attributes) := by
  have each : ∀ list ∈ attributes.map attributePieces, PlainPieces list := by
    rw [List.forall_mem_map]
    intro entry _
    simp +decide [attributePieces]
  have joined := (plainPieces_intercalate (by decide : PlainRaw ", ")).mpr each
  simp +decide [attributesPieces, joined]

@[simp]
theorem plainPieces_optionalAttributes (attributes : WrittenAttributes) :
    PlainPieces (optionalAttributesPieces attributes) := by
  unfold optionalAttributesPieces
  split_ifs <;> simp

@[simp]
theorem plainPieces_endpoint (endpoint : WrittenEndpoint) :
    PlainPieces (endpointPieces endpoint) := by
  obtain ⟨node, port⟩ := endpoint
  cases port with
  | none => simp [endpointPieces]
  | some port =>
      obtain ⟨name, compass⟩ := port
      cases name <;> cases compass <;> simp +decide [endpointPieces, portPieces]

@[simp]
theorem plainPieces_name (name : Option QuotedText) : PlainPieces (namePieces name) := by
  cases name <;> simp +decide [namePieces]

mutual

theorem Statement.plain_pieces (kind : GraphKind) (depth : Nat) (statement : Statement) :
    PlainPieces (statement.pieces kind depth) := by
  cases statement with
  | subgraph key name body =>
      have onBody := plain_bodyPieces kind (depth + 1) body
      simp +decide [Statement.pieces, onBody]
  | _ => simp +decide [Statement.pieces]

theorem plain_bodyPieces (kind : GraphKind) (depth : Nat) (body : List Statement) :
    PlainPieces (bodyPieces kind depth body) := by
  cases body with
  | nil => simp [bodyPieces]
  | cons statement body =>
      rw [bodyPieces, plainPieces_append]
      exact ⟨Statement.plain_pieces kind depth statement, plain_bodyPieces kind depth body⟩

end

theorem Document.plain_pieces (document : Document) : PlainPieces document.pieces := by
  have onBody := plain_bodyPieces document.kind 1 document.body
  obtain ⟨strict, kind, id, body⟩ := document
  cases strict <;> cases kind <;>
    simpa +decide [Document.pieces, kindText] using onBody

/-! ## Safe pieces -/

@[simp]
theorem safePieces_nil : SafePieces [] := by
  simp [SafePieces]

@[simp]
theorem safePieces_append (first second : List DotPiece) :
    SafePieces (first ++ second) ↔ SafePieces first ∧ SafePieces second :=
  List.forall_mem_append

@[simp]
theorem safePieces_raw (text : String) (pieces : List DotPiece) :
    SafePieces (.raw text :: pieces) ↔ SafePieces pieces := by
  simp [SafePieces, LiteralRules.SafePiece]

@[simp]
theorem safePieces_indent (depth : Nat) (pieces : List DotPiece) :
    SafePieces (indentPiece depth :: pieces) ↔ SafePieces pieces :=
  safePieces_raw _ pieces

@[simp]
theorem safePieces_literal (literal : DotLiteral) (pieces : List DotPiece) :
    SafePieces (.literal literal :: pieces) ↔ literal.Safe ∧ SafePieces pieces :=
  List.forall_mem_cons

@[simp]
theorem safePieces_quoted (text : QuotedText) (pieces : List DotPiece) :
    SafePieces (quotedPiece text :: pieces) ↔ SafeQuoted text.value ∧ SafePieces pieces :=
  List.forall_mem_cons

@[simp]
theorem safePieces_attributes (attributes : WrittenAttributes) :
    SafePieces (attributesPieces attributes) ↔ SafeWritten attributes := by
  have joined : SafePieces ([.raw ", "].intercalate (attributes.map attributePieces)) ↔
      ∀ list ∈ attributes.map attributePieces, SafePieces list :=
    forall_mem_intercalate ((safePieces_raw ", " []).mpr safePieces_nil)
  rw [List.forall_mem_map] at joined
  simp [attributesPieces, joined, attributePieces, SafeWritten]

@[simp]
theorem safePieces_optionalAttributes (attributes : WrittenAttributes) :
    SafePieces (optionalAttributesPieces attributes) ↔ SafeWritten attributes := by
  unfold optionalAttributesPieces
  cases attributes with
  | nil => simp [SafeWritten]
  | cons entry attributes => simp

def WrittenEndpoint.Safe (endpoint : WrittenEndpoint) : Prop :=
  SafeQuoted endpoint.node.value ∧
    ∀ port ∈ endpoint.port, ∀ name ∈ port.1, SafeQuoted name.value

@[simp]
theorem safePieces_endpoint (endpoint : WrittenEndpoint) :
    SafePieces (endpointPieces endpoint) ↔ endpoint.Safe := by
  obtain ⟨node, port⟩ := endpoint
  cases port with
  | none => simp [endpointPieces, WrittenEndpoint.Safe]
  | some port =>
      obtain ⟨name, compass⟩ := port
      cases name <;> cases compass <;> simp [endpointPieces, portPieces, WrittenEndpoint.Safe]

@[simp]
theorem safePieces_name (name : Option QuotedText) :
    SafePieces (namePieces name) ↔ ∀ text ∈ name, SafeQuoted text.value := by
  cases name <;> simp [namePieces]

/-- The texts of a statement, but for its body, are safe. -/
def DotEntry.Safe : DotEntry → Prop
  | .attributes _ written => SafeWritten written
  | .node id written => SafeQuoted id.value ∧ SafeWritten written
  | .edge source target written => source.Safe ∧ target.Safe ∧ SafeWritten written
  | .subgraph _ name => ∀ text ∈ name, SafeQuoted text.value

mutual

theorem Statement.safe_pieces_iff (kind : GraphKind) (depth : Nat) (scope : Option String)
    (statement : Statement) :
    SafePieces (statement.pieces kind depth) ↔
      ∀ entry ∈ statement.scoped scope, entry.2.Safe := by
  cases statement with
  | subgraph key name body =>
      have onBody := safe_bodyPieces_iff kind (depth + 1) (some key) body
      simp [Statement.pieces, Statement.scoped, DotEntry.Safe, onBody]
  | _ => simp [Statement.pieces, Statement.scoped, DotEntry.Safe]

theorem safe_bodyPieces_iff (kind : GraphKind) (depth : Nat) (scope : Option String)
    (body : List Statement) :
    SafePieces (bodyPieces kind depth body) ↔
      ∀ entry ∈ bodyScoped scope body, entry.2.Safe := by
  cases body with
  | nil => simp [bodyPieces, bodyScoped]
  | cons statement body =>
      rw [bodyPieces, bodyScoped, safePieces_append, List.forall_mem_append,
        Statement.safe_pieces_iff kind depth scope statement,
        safe_bodyPieces_iff kind depth scope body]

end

end Pieces

namespace Document

/-- The statements of a document in their scopes. -/
def entries (document : Document) : List (Option String × DotEntry) :=
  bodyScoped none document.body

/-- DOT reads a document as it is meant if and only if its texts are safe. -/
theorem run_text_iff (document : Document) :
    dotScanner.run .outside document.text.toList = document.signs ↔
      (∀ id ∈ document.id, SafeQuoted id.value) ∧
        ∀ entry ∈ document.entries, entry.2.Safe := by
  have scanned := dotRules.run_pieces_iff document.plain_pieces
  have onBody := safe_bodyPieces_iff document.kind 1 none document.body
  have safe : SafePieces document.pieces ↔ (∀ id ∈ document.id, SafeQuoted id.value) ∧
      ∀ entry ∈ document.entries, entry.2.Safe := by
    simp [pieces, entries, onBody]
  rw [text, String.toList_ofList, ← safe]
  exact scanned

end Document

end RexLang.Graphviz
