/-!
# Interface schemas

`Schema` is the documentation view of one interface definition file: its declarations in source
order, each with the comment lines that document it.  Nested messages are not modelled; their fields
are attributed to the enclosing message.
-/

namespace ApiPages

structure Rpc where
  name : String := ""
  request : String := ""
  response : String := ""
  clientStreaming : Bool := false
  serverStreaming : Bool := false
  docs : List String := []
  deriving DecidableEq, Repr

structure Service where
  name : String := ""
  docs : List String := []
  rpcs : List Rpc := []
  deriving DecidableEq, Repr

/-- A message field.  Both labels may be set; the page decides which one it shows. -/
structure MessageField where
  type : String := ""
  name : String := ""
  number : String := ""
  isRepeated : Bool := false
  isOptional : Bool := false
  docs : List String := []
  deriving DecidableEq, Repr

structure Message where
  name : String := ""
  docs : List String := []
  fields : List MessageField := []
  deriving DecidableEq, Repr

structure EnumValue where
  name : String := ""
  number : String := ""
  docs : List String := []
  deriving DecidableEq, Repr

structure EnumDecl where
  name : String := ""
  docs : List String := []
  values : List EnumValue := []
  deriving DecidableEq, Repr

structure Schema where
  package : String := ""
  /-- The version of the definition language, such as `proto3`. -/
  dialect : String := ""
  imports : List String := []
  services : List Service := []
  messages : List Message := []
  enums : List EnumDecl := []
  deriving DecidableEq, Repr

end ApiPages
