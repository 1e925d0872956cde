import Stencil.Bindings
import Stencil.Json.Number
import Stencil.Json.Quoted

/-!
# JSON values

Values of any shape and their compact text.
-/

namespace Stencil.Json

open Ascii

/-- A JSON value. A number is whole, or a double given by its bits. -/
inductive Value where
  | null
  | bool (b : Bool)
  | integer (n : Int)
  | float (bits : UInt64)
  | string (text : String)
  | list (items : List Value)
  | object (members : List (String × Value))
  deriving Inhabited

/-- The text `null`. -/
def nullText : Bytes := [0x6E, 0x75, 0x6C, 0x6C]

/-- The text `true` or `false`. -/
def boolText : Bool → Bytes
  | true => [0x74, 0x72, 0x75, 0x65]
  | false => [0x66, 0x61, 0x6C, 0x73, 0x65]

namespace Value

/-- An object with its members in order of name, the last one of a name holding. -/
def ofMembers (members : List (String × Value)) : Value := object (Bindings.ofList members).entries

/-- The member of an object that has a name. -/
def get? (name : String) : Value → Option Value
  | object members => Bindings.lookupEntry name members
  | _ => none

mutual

/-- The compact text of a value. -/
def encode : Value → Bytes
  | null => nullText
  | bool b => boolText b
  | integer n => encodeInteger n
  | float bits => doubleLayout.encode bits.toNat
  | string text => quoted text
  | list [] => [openBracket, closeBracket]
  | list (item :: items) => openBracket :: (encode item ++ encodeItems items)
  | object [] => [openBrace, closeBrace]
  | object ((name, value) :: members) =>
    openBrace :: (quoted name ++ colon :: encode value ++ encodeMembers members)

/-- The text of the further items of a list, up to its end. -/
def encodeItems : List Value → Bytes
  | [] => [closeBracket]
  | item :: items => comma :: (encode item ++ encodeItems items)

/-- The text of the further members of an object, up to its end. -/
def encodeMembers : List (String × Value) → Bytes
  | [] => [closeBrace]
  | (name, value) :: members =>
    comma :: (quoted name ++ colon :: encode value ++ encodeMembers members)

end

end Value

end Stencil.Json
