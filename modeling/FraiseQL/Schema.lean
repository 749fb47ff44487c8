import FraiseQL.Json

/-! The compiled schema (`schema/`), as far as the runtime reads it: types and their fields, query
definitions with their security attributes, roles, session variables. An `IndexMap` is the list of its
entries, a `HashMap` that is only looked up is one too. -/

namespace FraiseQL

inductive FieldType where
  | string | int | float | boolean | id
  | dateTime | date | time
  | json | uuid | decimal | vector
  | scalar (name : String)
  | list (inner : FieldType)
  | object (name : String)
  | enum (name : String)
  | input (name : String)
  | interface (name : String)
  | union (name : String)
  deriving DecidableEq

namespace FieldType

def isScalar : FieldType → Bool
  | .list _ | .object _ | .enum _ | .input _ | .interface _ | .union _ => false
  | _ => true

def isList : FieldType → Bool
  | .list _ => true
  | _ => false

def typeName : FieldType → Option String
  | .object name | .enum name | .input name | .interface name | .union name => some name
  | _ => none

end FieldType

/-- What happens to a field the user may not see. -/
inductive FieldDenyPolicy where
  | reject | mask

structure FieldDefinition where
  name : String
  fieldType : FieldType
  requiresScope : Option String
  onDeny : FieldDenyPolicy

structure TypeDefinition where
  name : String
  fields : List FieldDefinition

def TypeDefinition.findField (t : TypeDefinition) (name : String) : Option FieldDefinition :=
  t.fields.find? fun f => f.name = name

structure AutoParams where
  hasWhere : Bool
  hasOrderBy : Bool
  hasLimit : Bool
  hasOffset : Bool
  deriving DecidableEq

inductive CursorType where
  | int64 | uuid
  deriving DecidableEq

inductive InjectedParamSource where
  | jwt (claim : String)
  deriving DecidableEq

/-- `QueryDefinition`; of an argument definition the runtime reads the name. -/
structure QueryDefinition where
  name : String
  returnType : String
  returnsList : Bool
  arguments : List String
  sqlSource : Option String
  autoParams : AutoParams
  relay : Bool
  relayCursorColumn : Option String
  relayCursorType : CursorType
  injectParams : List (String × InjectedParamSource)
  requiresRole : Option String
  nativeColumns : List (String × String)
  deriving DecidableEq

structure RoleDefinition where
  name : String
  scopes : List String

def stripSuffix (suffix s : List Char) : Option (List Char) :=
  if suffix.isSuffixOf s then some (s.take (s.length - suffix.length)) else none

/-- Whether one scope of a role covers the required one, with its wildcards. -/
def scopeCovers (required scope : String) : Bool :=
  if scope = "*" then true
  else if scope = required then true
  else match stripSuffix [':', '*'] scope.toList with
    | some start => start.isPrefixOf required.toList && required.toList.contains ':'
    | none =>
      match stripSuffix ['*'] scope.toList with
      | some start => start.isPrefixOf required.toList
      | none => false

def RoleDefinition.hasScope (role : RoleDefinition) (required : String) : Bool :=
  role.scopes.any (scopeCovers required)

structure SecurityConfig where
  roleDefinitions : List RoleDefinition

def SecurityConfig.roleHasScope (config : SecurityConfig) (roleName scope : String) : Bool :=
  (config.roleDefinitions.find? fun role => role.name = roleName).any fun role => role.hasScope scope

inductive SessionVariableSource where
  | jwt (claim : String)
  | header (name : String)
  | literal (value : String)

structure SessionVariablesConfig where
  mappings : List (String × SessionVariableSource)
  injectStartedAt : Bool

structure CompiledSchema where
  types : List TypeDefinition
  queries : List QueryDefinition
  security : Option SecurityConfig
  sessionVariables : SessionVariablesConfig

def CompiledSchema.findType (schema : CompiledSchema) (name : String) : Option TypeDefinition :=
  schema.types.find? fun t => t.name = name

end FraiseQL
