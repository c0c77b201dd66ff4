import Snail.Network.Spf.Record

/-!
# Macro — macro expansion in domain-specs

`crates/network/src/spf/macro_expand.rs`.
-/

open Snail.Reasoning

namespace Snail.Network.Spf

structure MacroContext where
  ip : IpAddr
  senderLocal : Str
  senderDomain : Str
  helo : Str
  domain : Str

-- the delimiters a transformer may name
def delimiters : List Char := ['.', '-', '+', ',', '/', '_', '=']

/-- `ip_dotted`: dotted quad, or the 32 nibbles with dots between them. -/
def ipDotted : IpAddr → Str
  | .v4 addr => Ipv4Addr.toText addr
  | .v6 addr => List.intercalate ['.'] ((addrGroups 4 32 addr.toNat).map showHex)

/-- `macro_value` of a lower-case letter. -/
def macroValue (letter : Char) (ctx : MacroContext) : Option Str :=
  match letter with
  | 's' => some (ctx.senderLocal ++ '@' :: ctx.senderDomain)
  | 'l' => some ctx.senderLocal
  | 'o' => some ctx.senderDomain
  | 'd' => some ctx.domain
  | 'h' => some ctx.helo
  | 'i' => some (ipDotted ctx.ip)
  | 'v' => some (match ctx.ip with
      | .v4 _ => "in-addr".toList
      | .v6 _ => "ip6".toList)
  | 'p' => some "unknown".toList
  | _ => none

/-- `{b:02X}` behind a percent sign. -/
def percentByte (b : UInt8) : Str :=
  '%' :: (addrGroups 4 2 b.toNat).flatMap fun n => toAsciiUppercase (showHex n)

/-- `url_escape`: everything but the unreserved characters is percent-encoded. -/
def urlEscape (s : Str) : Str :=
  (encodeUtf8 s).flatMap fun b =>
    let c := Char.ofNat b.toNat
    if c.isAlphanum || c == '-' || c == '.' || c == '_' || c == '~' then [c] else percentByte b

-- the transformer: split, reverse, keep the right-most parts, join with dots
def transform (value : Str) (splitOn : List Char) (reverse : Bool) (keep : Option Nat) : Str :=
  let parts := value.splitOnP (splitOn.contains ·)
  let parts := if reverse then parts.reverse else parts
  let parts := match keep with
    | some n => if n < parts.length then parts.drop (parts.length - n) else parts
    | none => parts
  List.intercalate ['.'] parts

/-- `expand_one`: a letter, a digit count, a reverse flag and delimiters. -/
def expandOne (body : Str) (ctx : MacroContext) : Except NetworkError Str :=
  match body with
  | [] => recordErr "empty macro `%\x7b\x7d`".toList
  | letter :: rest => do
      let digits := rest.takeWhile Char.isDigit
      let tail := rest.dropWhile Char.isDigit
      let keep ← if digits = [] then .ok none
        else match parseUnsigned (2 ^ 64 - 1) digits with
          | some n => .ok (some n)
          | none => recordErr "bad macro digit count".toList
      let reverse := tail.head? == some 'r' || tail.head? == some 'R'
      let tail := if reverse then tail.tail else tail
      if !tail.all (delimiters.contains ·) then
        recordErr "invalid macro transformer delimiters".toList
      let splitOn := if tail = [] then ['.'] else tail
      match macroValue letter.toLower ctx with
      | none => recordErr ("unknown macro letter `".toList ++ [letter] ++ "`".toList)
      | some value =>
          let joined := transform value splitOn reverse keep
          return if letter.isUpper then urlEscape joined else joined

/-- Where `expand` stands: in plain text, behind a percent sign, or inside a macro body. -/
inductive ExpandState where
  | text
  | escape
  | body (acc : Str)

-- the loop of `expand`
def expandFrom (ctx : MacroContext) : ExpandState → Str → Str → Except NetworkError Str
  | .text, out, [] => .ok out
  | .text, out, c :: cs =>
      if c = '%' then expandFrom ctx .escape out cs else expandFrom ctx .text (out ++ [c]) cs
  | .escape, out, c :: cs =>
      if c = '%' then expandFrom ctx .text (out ++ ['%']) cs
      else if c = '_' then expandFrom ctx .text (out ++ [' ']) cs
      else if c = '-' then expandFrom ctx .text (out ++ "%20".toList) cs
      else if c = '{' then expandFrom ctx (.body []) out cs
      else recordErr "invalid macro escape (expected %%, %_, %-, or %\x7b...\x7d)".toList
  | .escape, _, [] =>
      recordErr "invalid macro escape (expected %%, %_, %-, or %\x7b...\x7d)".toList
  | .body _, _, [] => recordErr "unterminated macro `%\x7b`".toList
  | .body acc, out, c :: cs =>
      if c = '}' then
        match expandOne acc ctx with
        | .ok value => expandFrom ctx .text (out ++ value) cs
        | .error e => .error e
      else expandFrom ctx (.body (acc ++ [c])) out cs

def expand (spec : Str) (ctx : MacroContext) : Except NetworkError Str :=
  expandFrom ctx .text [] spec

example : expand "%\x7bir\x7d.%\x7bv\x7d._spf.%\x7bd2\x7d".toList
    ⟨.v4 0xC0000203#32, [], [], [], "mail.example.com".toList⟩ =
      .ok "3.2.0.192.in-addr._spf.example.com".toList := by decide

end Snail.Network.Spf
