import SandboxProfile.Diagnostic.Code

/-!
# Malformed samples

Short texts, each with a code that reading it has to report, and long texts that would overtax a
careless reader.
-/

namespace SandboxProfile.Sample

structure Malformed where
  name : String
  text : String
  code : Code
deriving DecidableEq, Repr

/-- A text for every code that is reported. -/
def malformed : List Malformed := [
  ⟨"unknown_character", "(allow @)", .unknownCharacter⟩,
  ⟨"unterminated_string", "(import \"open\n)", .unterminatedString⟩,
  ⟨"unterminated_raw_string", "(import #\"open", .unterminatedRawString⟩,
  ⟨"unterminated_block_comment", "(deny default) #| never", .unterminatedBlockComment⟩,
  ⟨"invalid_escape", "(define s \"\\q\")", .invalidEscape⟩,
  ⟨"short_hex_escape", "(define s \"\\x4\")", .invalidHexEscape⟩,
  ⟨"integer_overflow", "(version 99999999999999999999)", .invalidIntegerLiteral⟩,
  ⟨"hash_at_eof", "(deny default) #", .unexpectedEndOfFile⟩,
  ⟨"version_not_integer", "(version one)", .expectedToken⟩,
  ⟨"bad_expression", "(define x @)", .expectedExpression⟩,
  ⟨"missing_close_paren", "(version 1", .expectedCloseParen⟩,
  ⟨"stray_top_level_token", "deny", .unexpectedToken⟩,
  ⟨"filter_without_value", "(allow file-read* (literal))", .missingArgument⟩,
  ⟨"require_not_extra", "(allow x (require-not (a 1) (b 2)))", .tooManyArguments⟩,
  ⟨"invalid_debug_mode", "(debug maybe)", .invalidForm⟩,
  ⟨"empty_list", "()", .emptyList⟩,
  ⟨"duplicate_version", "(version 1)\n(version 2)", .duplicateDefinition⟩,
  ⟨"empty_rule", "(deny)", .emptyRule⟩,
  ⟨"duplicate_debug", "(debug allow)\n(debug deny)", .duplicateDebugMode⟩]

/-- A text over and over. -/
def copies (n : Nat) (text : String) : String := String.join (List.replicate n text)

/-- Texts that nest deep or are long. -/
def hostile : List (String × String) := [
  ("deep_lists", "(define x " ++ copies 5000 "(" ++ copies 5000 ")" ++ ")"),
  ("deep_filters", "(allow x " ++ copies 5000 "(require-all " ++ "(a 1)" ++ copies 5000 ")" ++ ")"),
  ("only_open_parens", copies 2000 "("),
  ("only_close_parens", copies 2000 ")"),
  ("long_comment", ";" ++ copies 100000 "x"),
  ("nested_comments", copies 1000 "#|" ++ copies 999 "|#")]

end SandboxProfile.Sample
