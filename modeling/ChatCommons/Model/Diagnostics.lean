import ChatCommons.General.Scanning

namespace ChatCommons

open Scanning

/-- A text is the list of its characters. -/
abbrev Text := List Char

def isWhitespace (character : Char) : Bool :=
  let point := character.toNat
  (9 ≤ point && point ≤ 13) || point = 32 || point = 0x85 || point = 0xA0 || point = 0x1680
    || (0x2000 ≤ point && point ≤ 0x200A) || point = 0x2028 || point = 0x2029
    || point = 0x202F || point = 0x205F || point = 0x3000

def isRunCharacter (character : Char) : Bool := character.isAlphanum || character = '_'

def redactRun (run : Text) : Text :=
  if "cc1_".toList.isPrefixOf run then "[redacted invite]".toList
  else if 32 ≤ run.length && run.all Char.isAlphanum then "[redacted identifier]".toList
  else run

def redactRuns (value : Text) : Text := mapRuns isRunCharacter redactRun value

/-- The punctuation that may stand before a path. -/
def opening : Text := "\x22\x27([\x7b=:".toList

def networkMultiaddrs : List Text :=
  ["/ip4/".toList, "/ip6/".toList, "/dns/".toList, "/dns4/".toList, "/dns6/".toList,
    "/udp/".toList, "/tcp/".toList, "/p2p/".toList]

/-- The first character takes one byte of the UTF-8 text exactly when the colon is the second. -/
def isWindowsPath : Text → Bool
  | drive :: colon :: slash :: _ =>
    drive.utf8Size = 1 && colon = ':' && (slash = Char.ofNat 92 || slash = '/')
  | _ => false

def isPath (token : Text) : Bool :=
  let candidate := token.dropWhile (opening.contains ·)
  let isNetworkMultiaddr := networkMultiaddrs.any (·.isPrefixOf candidate)
  "$HOME".toList.isPrefixOf candidate
    || "file://".toList.isPrefixOf candidate
    || ("/".toList.isPrefixOf candidate && !isNetworkMultiaddr)
    || isWindowsPath candidate

def redactToken (token : Text) : Text := if isPath token then "[redacted path]".toList else token

def redactTokens (value : Text) : Text :=
  " ".toList.intercalate ((words isWhitespace value).map redactToken)

/-- The variable counts as empty where it is not set. -/
def replaceHome (home value : Text) : Text :=
  if home.isEmpty then value else replaceAll home "$HOME".toList value

def redactDiagnostic (home value : Text) : Text :=
  redactTokens (redactRuns (replaceHome home value))

end ChatCommons
