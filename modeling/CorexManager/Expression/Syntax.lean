import CorexManager.Data.Text

/-!
# The expression language: tokens and syntax trees

The Cloudflare-style expressions of `shared/expression_core.py`.  A syntax tree
is built from *leaves* (the conditions on one field) by `and`, `or` and `not`.
In the source a node is a dictionary; a leaf's key `negated` is absent from
comparisons and literals until the normaliser sets it, and is read with
`get("negated", False)`, so here every leaf has the flag and the parser's
comparisons and literals carry `false`.
-/

namespace CorexManager.Expression

open Data (Text)

/-- The operators of a comparison (`_TWO_CHAR_OPS`, `_ONE_CHAR_OPS` and the three
keyword operators). -/
inductive CompareOp where
  | eq | ne | match | notMatch | gt | lt | ge | le | contains | startsWith | endsWith
  deriving DecidableEq, Repr

/-- The reserved words (`_KEYWORDS`). -/
inductive Keyword where
  | and | or | not | in | contains | startsWith | endsWith | exists | true | false
  deriving DecidableEq, Repr

namespace Keyword

/-- The spelling of a reserved word. -/
def text : Keyword → Text
  | .and => "and".toList
  | .or => "or".toList
  | .not => "not".toList
  | .in => "in".toList
  | .contains => "contains".toList
  | .startsWith => "starts_with".toList
  | .endsWith => "ends_with".toList
  | .exists => "exists".toList
  | .true => "true".toList
  | .false => "false".toList

/-- All of them. -/
def all : List Keyword :=
  [.and, .or, .not, .in, .contains, .startsWith, .endsWith, .exists, .true, .false]

end Keyword

/-- What a token is. -/
inductive TokenKind where
  | lparen | rparen | lbracket | rbracket | comma
  | op (o : CompareOp)
  | string (s : Text)
  | number (n : Int)
  | listref (listType listName : Text)
  | keyword (k : Keyword)
  | ident (name : Text)
  | eof
  deriving DecidableEq, Repr

/-- A token and the position it begins at. -/
structure Token where
  kind : TokenKind
  pos : Nat
  deriving DecidableEq, Repr

/-- The value of a comparison. -/
inductive Value where
  | str (s : Text)
  | int (n : Int)
  | bool (b : Bool)
  deriving DecidableEq, Repr

/-- The value of a list literal: the parser takes strings and numbers there. -/
inductive Item where
  | str (s : Text)
  | int (n : Int)
  deriving DecidableEq, Repr

/-- What a leaf tests, without its `negated` flag. -/
inductive LeafKind where
  | compare (field : Text) (op : CompareOp) (value : Value)
  | inList (field listType listName : Text)
  | inLiterals (field : Text) (values : List Item)
  | exists (field : Text)
  | boolField (field : Text)
  | literal (value : Bool)
  deriving DecidableEq, Repr

/-- A leaf node. -/
structure Leaf where
  kind : LeafKind
  negated : Bool
  deriving DecidableEq, Repr

/-- `node.get("field")`. -/
def LeafKind.field? : LeafKind → Option Text
  | .compare field _ _ => some field
  | .inList field _ _ => some field
  | .inLiterals field _ => some field
  | .exists field => some field
  | .boolField field => some field
  | .literal _ => none

/-- A bare `true` or `false`. -/
def Leaf.isLiteral (l : Leaf) : Bool :=
  match l.kind with
  | .literal _ => true
  | _ => false

/-- A syntax tree. -/
inductive Node where
  | leaf (l : Leaf)
  | and (children : List Node)
  | or (children : List Node)
  | not (child : Node)

/-- Induction on syntax trees, with the hypothesis for every child. -/
theorem Node.induct {motive : Node → Prop} (leaf : ∀ l, motive (.leaf l))
    (and : ∀ cs, (∀ c ∈ cs, motive c) → motive (.and cs))
    (or : ∀ cs, (∀ c ∈ cs, motive c) → motive (.or cs))
    (not : ∀ c, motive c → motive (.not c)) : ∀ n, motive n
  | .leaf l => leaf l
  | .and cs => and cs fun c _ => Node.induct leaf and or not c
  | .or cs => or cs fun c _ => Node.induct leaf and or not c
  | .not c => not c (Node.induct leaf and or not c)

mutual

/-- Every connective has a child. -/
def Node.Proper : Node → Prop
  | .leaf _ => True
  | .and cs => cs ≠ [] ∧ ProperAll cs
  | .or cs => cs ≠ [] ∧ ProperAll cs
  | .not c => c.Proper

/-- Every child is proper. -/
def ProperAll : List Node → Prop
  | [] => True
  | c :: cs => c.Proper ∧ ProperAll cs

end

theorem properAll_iff (cs : List Node) : ProperAll cs ↔ ∀ c ∈ cs, c.Proper := by
  induction cs with
  | nil => simp [ProperAll]
  | cons c cs ih => rw [ProperAll, ih, List.forall_mem_cons]

end CorexManager.Expression
