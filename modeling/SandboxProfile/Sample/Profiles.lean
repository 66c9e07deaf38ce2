/-!
# Sample profiles

Texts without an error, each of them for one part of the language and the last for most of it. None
of them holds a quote form.
-/

namespace SandboxProfile.Sample

/-- Lines, each with a line feed behind it. -/
def lines (texts : List String) : String := String.join (texts.map (· ++ "\n"))

/-- The least profile of use. -/
def minimal : String := lines [
  "(version 1)",
  "(deny default)"]

/-- Declarations of every kind, with rules between them. -/
def declarations : String := lines [
  "(version 1)",
  r#"(import "system.sb")"#,
  "(deny default)",
  "(debug deny)",
  r#"(define home "/Users/sandbox")"#,
  r#"(import #"bsd.sb")"#,
  "(define max-files 64)",
  "(define verbose #f)",
  "(allow process-fork)"]

/-- Rules on files, with simple filters. -/
def fileAccess : String := lines [
  "(version 1)",
  "(deny default)",
  r#"(allow file-read-data (subpath "/usr"))"#,
  r#"(allow file-read* file-write* (literal "/dev/null"))"#,
  r#"(allow file-read-metadata (regex #"^/private/var/.*$"))"#,
  r#"(deny file-write* (subpath "/System"))"#,
  r#"(allow file-ioctl (literal "/dev/dtracehelper") (literal "/dev/tty"))"#]

/-- Compound filters and negations inside each other. -/
def compoundFilters : String := lines [
  "(version 1)",
  "(allow file-read*",
  "  (require-any",
  r#"    (subpath "/usr/lib")"#,
  r#"    (subpath "/System/Library")"#,
  "    (require-all",
  "      (vnode-type REGULAR-FILE)",
  r#"      (require-not (literal "/etc/master.passwd")))))"#,
  r#"(allow file-write* (require-not (subpath "/")))"#,
  "(deny signal (require-all))"]

/-- Rules on networks and on other processes. -/
def network : String := lines [
  "(version 1)",
  "(deny default)",
  r#"(allow network-outbound (remote tcp "*:443"))"#,
  r#"(allow network-bind (local ip "localhost:*"))"#,
  r#"(allow mach-lookup (global-name "com.apple.system.logger"))"#,
  "(allow ipc-posix-shm sysctl-read)"]

/-- Comments, empty lines, tabs, and line ends of two characters. -/
def trivia : String := lines [
  "; header comment\r",
  "(version 1) ; trailing\r",
  "\r",
  "#| block\r",
  "  #| nested |#\r",
  "|#\r",
  "\t(deny default)\r",
  "(allow file-read* #| inline |# (subpath \"/tmp\"))\r"]

/-- A definition with parameters. -/
def functionDefine : String := lines [
  "(version 1)",
  r#"(define (home-subpath rel) (subpath (string-append "/Users/me" rel)))"#,
  r#"(define paths ("/a" "/b" ("/c" 3)))"#,
  r#"(allow file-read* (home-subpath "/Library"))"#]

/-- Filters that begin with no symbol. -/
def expressionFilters : String := lines [
  "(version 1)",
  r#"(allow file-read* ("literal" "/weird") (42 #t))"#,
  r#"(deny file-write* ((nested list) "x"))"#]

/-- Escapes in strings, and literals at the edges of their forms. -/
def escapes : String := lines [
  "(version -1)",
  r#"(define quoted "say \"hi\"")"#,
  r#"(define control "tab\there\nnewline\rcr\\slash")"#,
  r#"(define hex "\x41\u00e9\u263A")"#,
  r#"(define raw #"C:\path\no-escapes")"#,
  "(define bools (#t #F +5 -0))"]

/-- A profile as it might be written, with most of what there is. -/
def comprehensive : String := lines [
  ";; Application sandbox",
  "(version 1)",
  "(debug allow)",
  r#"(import "system.sb")"#,
  "",
  r#"(define app-root "/Applications/Demo.app")"#,
  r#"(define cache-dir "/Library/Caches/demo")"#,
  "",
  "(deny default)",
  "(allow process-exec",
  r#"  (literal "/usr/bin/true"))"#,
  "(allow file-read* file-read-metadata",
  "  (require-any",
  r#"    (subpath "/usr/lib")"#,
  r#"    (subpath "/System/Library/Frameworks")"#,
  r#"    (regex #"^/Applications/Demo\.app/")))"#,
  "(allow file-write*",
  "  (require-all",
  r#"    (subpath "/private/tmp")"#,
  "    (require-not",
  r#"      (require-any (literal "/private/tmp/lock") (vnode-type SYMLINK)))))"#,
  r#"(allow network-outbound (remote tcp "*:443"))"#,
  r#"(allow mach-lookup (global-name "com.apple.windowserver.active"))"#,
  "(allow sysctl-read iokit-open)"]

/-- Every sample with its name. -/
def all : List (String × String) := [
  ("minimal", minimal),
  ("declarations", declarations),
  ("file_access", fileAccess),
  ("compound_filters", compoundFilters),
  ("network", network),
  ("trivia", trivia),
  ("function_define", functionDefine),
  ("expression_filters", expressionFilters),
  ("escapes", escapes),
  ("comprehensive", comprehensive)]

end SandboxProfile.Sample
