import Dcr.FreeText
import Dcr.Marking
import Dcr.Store

/-! Containers: nests, which are plain groups or choices between their children, and subprocesses,
which can be spawned. A container does not list its children; each node names its parent. -/

namespace Dcr

variable {τ : Type} [FreeText τ]

inductive ContainerKind where
  | nest
  | subprocess
  deriving DecidableEq, Repr

def ContainerKind.name : ContainerKind → String
  | nest => "nest"
  | subprocess => "subprocess"

def ContainerKind.ofName? : String → Option ContainerKind
  | "nest" => some nest
  | "subprocess" => some subprocess
  | _ => none

def ContainerKind.title : ContainerKind → String
  | nest => "Nest"
  | subprocess => "Subprocess"

inductive NestType where
  | group
  | choice
  deriving DecidableEq, Repr

def NestType.name : NestType → String
  | group => "group"
  | choice => "choice"

def NestType.ofName? : String → Option NestType
  | "group" => some group
  | "choice" => some choice
  | _ => none

/-- The kind of a container with, for a nest, its type. -/
inductive ContainerForm where
  | nest (type : NestType)
  | subprocess
  deriving DecidableEq, Repr

namespace ContainerForm

/-- The form of a kind: a nest is a group unless told otherwise. -/
def ofKind (kind : ContainerKind) (type : Option NestType) : ContainerForm :=
  match kind with
  | .nest => nest (type.getD .group)
  | .subprocess => subprocess

def kind : ContainerForm → ContainerKind
  | nest _ => .nest
  | subprocess => .subprocess

def nestType? : ContainerForm → Option NestType
  | nest type => some type
  | subprocess => none

end ContainerForm

structure Container (τ : Type) where
  id : String
  label : τ
  form : ContainerForm := .nest .group
  marking : Marking := {}
  parent : Option String := none
  deriving DecidableEq, Repr

instance : Keyed (Container τ) := ⟨Container.id⟩

namespace Container

def kind (c : Container τ) : ContainerKind := c.form.kind

def isChoice (c : Container τ) : Bool := c.form == .nest .choice

def isSubprocess (c : Container τ) : Bool := c.form == .subprocess

/-- The id with the nest type, or with the kind of a subprocess. -/
def render (c : Container τ) : String :=
  c.id ++ "<" ++ (c.form.nestType?.map NestType.name).getD c.kind.name ++ ">"

end Container

end Dcr
