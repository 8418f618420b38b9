import DeviceLock.Json.Value

namespace DeviceLock.Json

def digits (n : Nat) : List Char := Nat.toDigits 10 n

def unitDigits (n : Nat) : List Char :=
  [n / 4096 % 16, n / 256 % 16, n / 16 % 16, n % 16].map Nat.digitChar

def printChar : Char → List Char
  | '"' => ['\\', '"']
  | '\\' => ['\\', '\\']
  | '\x08' => ['\\', 'b']
  | '\x0c' => ['\\', 'f']
  | '\n' => ['\\', 'n']
  | '\r' => ['\\', 'r']
  | '\t' => ['\\', 't']
  | c => if c.toNat < 0x20 then '\\' :: 'u' :: unitDigits c.toNat else [c]

def printPiece : Piece → List Char
  | .char c => printChar c
  | .unit n => '\\' :: 'u' :: unitDigits n
  | .gap => ['\uFFFD']

def printString (s : Pieces) : List Char := '"' :: s.flatMap printPiece ++ ['"']

def printNumber (n : Number) : List Char :=
  (if n.negative then ['-'] else []) ++ digits n.whole ++ n.rest

mutual

def compact : Json → List Char
  | .null => "null".toList
  | .bool true => "true".toList
  | .bool false => "false".toList
  | .number n => printNumber n
  | .string s => printString s
  | .array [] => "[]".toList
  | .array (j :: js) => '[' :: compact j ++ compactItems js
  | .object [] => ['\x7b', '\x7d']
  | .object ((k, j) :: ms) => '\x7b' :: printString k ++ ':' :: compact j ++ compactMembers ms

def compactItems : List Json → List Char
  | [] => [']']
  | j :: js => ',' :: compact j ++ compactItems js

def compactMembers : List (Pieces × Json) → List Char
  | [] => ['\x7d']
  | (k, j) :: ms => ',' :: printString k ++ ':' :: compact j ++ compactMembers ms

end

def newline (depth : Nat) : List Char := '\n' :: List.replicate (2 * depth) ' '

mutual

def indented (depth : Nat) : Json → List Char
  | .null => "null".toList
  | .bool true => "true".toList
  | .bool false => "false".toList
  | .number n => printNumber n
  | .string s => printString s
  | .array [] => "[]".toList
  | .array (j :: js) =>
    '[' :: newline (depth + 1) ++ indented (depth + 1) j ++ indentedItems depth js
  | .object [] => ['\x7b', '\x7d']
  | .object ((k, j) :: ms) =>
    '\x7b' :: newline (depth + 1) ++ printString k ++ ':' :: ' ' :: indented (depth + 1) j ++
      indentedMembers depth ms

def indentedItems (depth : Nat) : List Json → List Char
  | [] => newline depth ++ [']']
  | j :: js => ',' :: newline (depth + 1) ++ indented (depth + 1) j ++ indentedItems depth js

def indentedMembers (depth : Nat) : List (Pieces × Json) → List Char
  | [] => newline depth ++ ['\x7d']
  | (k, j) :: ms =>
    ',' :: newline (depth + 1) ++ printString k ++ ':' :: ' ' :: indented (depth + 1) j ++
      indentedMembers depth ms

end

def print (j : Json) : String := String.ofList (compact j)

def pretty (j : Json) : String := String.ofList (indented 0 j)

end DeviceLock.Json
