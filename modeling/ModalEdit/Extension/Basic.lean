import ModalEdit.Action.Basic
import ModalEdit.Keymap.Default
import ModalEdit.TextObject.Argument
import ModalEdit.TextObject.Hump

/-!
Extensions: bundles of actions and the keys that reach them, known by name and loaded at most once each.
-/

set_option autoImplicit false

namespace ModalEdit

structure Extension where
  name : String
  actions : List ActionSpec
  bindings : List Binding

inductive ExtensionError where
  | unknownExtension (name : String)
  deriving DecidableEq, Repr

namespace ExtensionError

def message : ExtensionError → String
  | unknownExtension name => "unknown extension: " ++ name

end ExtensionError

namespace Extension

open Keymap.Default (bind typed)

/-- Motions and an object over the humps of an identifier. -/
def humps : Extension where
  name := "camelcasemotion"
  actions := [
    { id := "camel.right", handler := .motion Motion.humpRight, flags := { exclusive := true } },
    { id := "camel.left", handler := .motion Motion.humpLeft, flags := { exclusive := true } },
    { id := "camel.end_right", handler := .motion Motion.humpEndRight, flags := { inclusive := true } },
    { id := "camel.end_left", handler := .motion Motion.humpEndLeft, flags := { inclusive := true } },
    { id := "camel.inner_word", handler := .textObject (TextObject.hump false)
      flags := { characterwise := true } },
    { id := "camel.around_word", handler := .textObject (TextObject.hump true)
      flags := { characterwise := true } }]
  bindings := [
    bind "NVO" (typed "\\w") "camel.right",
    bind "NVO" (typed "\\b") "camel.left",
    bind "NVO" (typed "\\e") "camel.end_right",
    bind "NVO" (typed "\\ge") "camel.end_left",
    bind "VO" (typed "i\\w") "camel.inner_word",
    bind "VO" (typed "a\\w") "camel.around_word"]

/-- The argument of a call as an object. -/
def arguments : Extension where
  name := "argtextobj"
  actions := [
    { id := "argument.inner", handler := .textObject (TextObject.argument true)
      flags := { characterwise := true } },
    { id := "argument.around", handler := .textObject (TextObject.argument false)
      flags := { characterwise := true } }]
  bindings := [bind "VO" (typed "ia") "argument.inner", bind "VO" (typed "aa") "argument.around"]

def all : List Extension := [humps, arguments]

def find (name : String) : Except ExtensionError Extension :=
  match all.find? (·.name == name) with
  | some extension => .ok extension
  | none => .error (.unknownExtension name)

end Extension

/-- The extensions to load, each once, and the names of those that are. -/
structure ExtensionHost where
  extensions : List Extension := []
  loaded : List String := []

namespace ExtensionHost

def name : String := "static-extension-host"

def add (h : ExtensionHost) (extension : Extension) : ExtensionHost :=
  if h.extensions.any (·.name == extension.name) then h
  else { h with extensions := h.extensions ++ [extension] }

/-- The first name that is not known is the error. -/
def ofNames (names : List String) : Except ExtensionError ExtensionHost :=
  names.foldlM (fun h name ↦ h.add <$> Extension.find name) {}

def isLoaded (h : ExtensionHost) (name : String) : Bool := h.loaded.contains name

def size (h : ExtensionHost) : Nat := h.extensions.length

/-- Registers the actions of an extension and binds its keys. What has a name or a sequence already
keeps it. -/
def install (registry : Registry) (keymap : Keymap) (extension : Extension) : Registry × Keymap :=
  (extension.actions.foldl (fun r a ↦ (r.register a).2) registry, keymap.bindAll extension.bindings)

/-- Installs the extensions that are not loaded yet. -/
def load (h : ExtensionHost) (registry : Registry) (keymap : Keymap) :
    ExtensionHost × Registry × Keymap :=
  let fresh := h.extensions.filter fun extension ↦ !h.isLoaded extension.name
  let (registry, keymap) := fresh.foldl (fun (r, k) extension ↦ install r k extension) (registry, keymap)
  ({ h with loaded := h.loaded ++ fresh.map (·.name) }, registry, keymap)

end ExtensionHost

end ModalEdit
