import ReliableUdp.Text.Shortest

/-!
# Bench documents

Request and report documents: null, booleans, numbers, strings, arrays and objects, written as
JSON. A number is an integer in the 64-bit ranges or a double, and a double is written as its
shortest decimal text (`null` when it is not finite).
-/

namespace ReliableUdp
namespace Bench

inductive Doc where
  | null
  | bool (b : Bool)
  | nat (n : Nat)
  | neg (n : Int)
  | float (x : Float)
  | str (s : String)
  | arr (items : List Doc)
  | obj (fields : List (String × Doc))
  deriving Inhabited

namespace Doc

def int (n : Int) : Doc := if n < 0 then neg n else nat n.toNat

def opt (f : α → Doc) : Option α → Doc
  | some a => f a
  | none => null

def quote (s : String) : String :=
  let esc := fun (c : Char) =>
    if c = '"' then "\\\""
    else if c = '\\' then "\\\\"
    else if c = '\n' then "\\n"
    else if c = '\r' then "\\r"
    else if c = '\t' then "\\t"
    else if c.toNat < 0x20 then
      let h := Nat.toDigits 16 c.toNat
      "\\u" ++ String.ofList (List.replicate (4 - h.length) '0' ++ h)
    else String.singleton c
  "\"" ++ String.join (s.toList.map esc) ++ "\""

mutual
def render : Doc → String
  | null => "null"
  | bool b => if b then "true" else "false"
  | nat n => toString n
  | neg n => toString n
  | float x => if x.isFinite then Shortest.render x else "null"
  | str s => quote s
  | arr items => "[" ++ renderItems items ++ "]"
  | obj fields => "\x7b" ++ renderFields fields ++ "\x7d"
def renderItems : List Doc → String
  | [] => ""
  | [d] => render d
  | d :: ds => render d ++ "," ++ renderItems ds
def renderFields : List (String × Doc) → String
  | [] => ""
  | [(k, d)] => quote k ++ ":" ++ render d
  | (k, d) :: fs => quote k ++ ":" ++ render d ++ "," ++ renderFields fs
end

def get? (d : Doc) (key : String) : Option Doc :=
  match d with
  | obj fields => (fields.find? (·.1 == key)).map (·.2) |>.bind fun
      | null => none
      | v => some v
  | _ => none

end Doc
end Bench
end ReliableUdp
