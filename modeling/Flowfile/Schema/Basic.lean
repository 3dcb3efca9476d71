import Flowfile.Context.Basic
import Flowfile.Tree.Basic

/-!
Schemas: descriptions of the shape that a document should have.

Scalars, mappings and sequences are described by terminal descriptions. The others lead to those:
alternatives, references to definitions by name, and custom descriptions, which depend on the
workflow and on the place. Only names make a schema recursive.
-/

namespace Flowfile

structure About where
  description : Option Text := none
  title : Option Text := none
  deriving DecidableEq

def isPresent (text : Option Text) : Bool := text.any (fun t => !t.isEmpty)

/-- The description, or the title if the description is empty. -/
def About.text (about : About) : Option Text :=
  if isPresent about.description then about.description else about.title

structure Choice where
  value : Text
  label : Option Text := none
  description : Option Text := none
  deriving DecidableEq

/-- The label, or the value if the label is empty. -/
def Choice.display (choice : Choice) : Text :=
  if isPresent choice.label then choice.label.getD [] else choice.value

/-- Rules for a scalar. Without literals and context values, every text is allowed. -/
structure Choices where
  allowed : List Choice := []
  ignoreCase : Bool := false
  custom : Bool := false
  deriving DecidableEq

/-- The literal that a text stands for: an exact one first, then one that differs in case only. -/
def Choices.find? (choices : Choices) (text : Text) : Option Choice :=
  match choices.allowed.find? (fun choice => choice.value = text) with
  | some choice => some choice
  | none =>
    if choices.ignoreCase then
      choices.allowed.find? (fun choice => choice.value.casefold = text.casefold)
    else none

structure Property (α : Type) where
  name : Text
  desc : α
  required : Bool := false

/-- The keys that match a regular expression, which messages show. -/
structure KeyPattern where
  text : Text
  accepts : Text → Bool

structure Fields (α : Type) where
  properties : List (Property α) := []
  fallback : Option α := none
  keyPattern : Option KeyPattern := none

namespace Fields

variable {α : Type}

def names (fields : Fields α) : List Text := fields.properties.map Property.name

def property? (fields : Fields α) (key : Text) : Option (Property α) :=
  fields.properties.find? (fun property => property.name = key)

def accepts (fields : Fields α) (key : Text) : Bool :=
  fields.fallback.isSome && fields.keyPattern.all (fun pattern => pattern.accepts key)

def desc? (fields : Fields α) (key : Text) : Option α :=
  match fields.property? key with
  | some property => some property.desc
  | none => if fields.accepts key then fields.fallback else none

def required (fields : Fields α) : List Text :=
  (fields.properties.filter Property.required).map Property.name

/-- Declares a property; one of the same name keeps its place and takes the new description. -/
def declare (property : Property α) : List (Property α) → List (Property α)
  | [] => [property]
  | first :: rest =>
    if first.name = property.name then property :: rest else first :: declare property rest

def ofList (properties : List (Property α)) : List (Property α) :=
  properties.foldl (fun declared property => declare property declared) []

end Fields

structure Inquiry where
  workflow : Value
  path : Path
  context : Context

inductive Desc
  | scalar (about : About) (choices : Choices)
  | mapping (about : About) (fields : Fields Desc)
  | sequence (about : About) (items : Desc)
  /-- Alternatives; a node takes the first one of its shape. -/
  | oneOf (about : About) (options : List Desc)
  | custom (about : About) (resolve : Inquiry → Option Desc)
  | reference (about : About) (name : Text)

def Desc.about : Desc → About
  | .scalar about _ | .mapping about _ | .sequence about _ | .oneOf about _ | .custom about _
  | .reference about _ => about

def Desc.anything : Desc := .scalar {} {}

inductive Terminal
  | scalar (about : About) (choices : Choices)
  | mapping (about : About) (fields : Fields Desc)
  | sequence (about : About) (items : Desc)

namespace Terminal

def toDesc : Terminal → Desc
  | .scalar about choices => .scalar about choices
  | .mapping about fields => .mapping about fields
  | .sequence about items => .sequence about items

def shape : Terminal → Shape
  | .scalar .. => .scalar
  | .mapping .. => .mapping
  | .sequence .. => .sequence

/-- Whether a node of the shape can be meant; what is empty can be meant as anything. -/
def fits (terminal : Terminal) (shape : Shape) : Bool := shape = .empty || terminal.shape = shape

def fields? : Terminal → Option (Fields Desc)
  | .mapping _ fields => some fields
  | _ => none

end Terminal

/-- A description without references and custom descriptions at its head. -/
inductive Concrete
  | single (terminal : Terminal)
  | oneOf (about : About) (options : List Desc)

def Concrete.toDesc : Concrete → Desc
  | .single terminal => terminal.toDesc
  | .oneOf about options => .oneOf about options

structure Schema where
  root : Desc
  definitions : List (Text × Desc) := []

end Flowfile
