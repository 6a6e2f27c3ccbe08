import Logme.FastFormat
import Logme.FileTimeRotationPolicy

/-!
# Templates of file names

`ReplaceAll` and `ProcessTemplate`.  The first looks for the text to be
replaced from the beginning again after every replacement.  The second
expands the values of variables in the same way as the template itself; the
nesting is bounded by the stack, and a template that exceeds it has no
expansion.
-/

namespace Logme

/-! ## `ReplaceAll` -/

/-- `find` and the replacement of the first occurrence. -/
def replaceFirst (what on : List Char) : List Char → Option (List Char)
  | [] => if what = [] then some on else none
  | c :: rest =>
      if what.isPrefixOf (c :: rest) then
        some (on ++ (c :: rest).drop what.length)
      else (replaceFirst what on rest).map (c :: ·)

def replaceLoop (what on : List Char) : Nat → List Char → List Char
  | 0, str => str
  | fuel + 1, str =>
      match replaceFirst what on str with
      | none => str
      | some str => replaceLoop what on fuel str

/-- The number of rounds is enough whenever the replacement has fewer of
some character than the text that is replaced. -/
def replaceAll (str what on : List Char) : List Char :=
  if what = on then str else replaceLoop what on (str.length + 1) str

theorem replaceFirst_count {what on str next : List Char} {c : Char}
    (hfewer : on.count c < what.count c)
    (hreplace : replaceFirst what on str = some next) :
    next.count c < str.count c := by
  induction str generalizing next with
  | nil =>
      rw [replaceFirst] at hreplace
      split at hreplace
      next hempty => simp [hempty] at hfewer
      next => simp at hreplace
  | cons a rest ih =>
      rw [replaceFirst] at hreplace
      split at hreplace
      next hlabel =>
        simp only [Option.some.injEq] at hreplace
        subst next
        rcases List.isPrefixOf_iff_prefix.mp hlabel with ⟨tail, htail⟩
        rw [← htail, List.drop_left, List.count_append, List.count_append]
        omega
      next =>
        rw [Option.map_eq_some_iff] at hreplace
        rcases hreplace with ⟨next', hnext', rfl⟩
        have hless := ih hnext'
        simp only [List.count_cons]
        omega

/-! ## `ProcessTemplate` -/

def TPID : List Char := "{pid}".toList

def TPNAME : List Char := "{pname}".toList

def TDATE : List Char := "{date}".toList

def TDATETIME : List Char := "{datetime}".toList

def TTARGET : List Char := "{target}".toList

def TEXEPATH : List Char := "{exepath}".toList

structure TemplateFlags where
  pid : Bool
  pname : Bool
  date : Bool
  target : Bool
  exepath : Bool
  datetime : Bool

def templateAll : TemplateFlags := ⟨true, true, true, true, true, true⟩

/-- `TEMPLATE_ALL & ~TEMPLATE_DATE_AND_TIME`. -/
def templateConst : TemplateFlags := ⟨true, true, false, true, true, false⟩

/-- What the expansion reads; `stack` is the depth of nested calls that fit
the stack. -/
structure TemplateValues where
  pid : Nat
  exeName : List Char
  executablePath : List Char
  envGetVar : List Char → List Char
  zone : TimeZone
  now : Int
  stack : Nat

/-- Two digits at least. -/
def twoDigits (n : Int) : List Char :=
  if 0 ≤ n ∧ n < 10 then '0' :: decimal n else decimal n

/-- `%Y-%m-%d` -/
def formatDate (tm : Tm) : List Char :=
  decimal (tm.year + 1900) ++ '-' :: twoDigits (tm.mon + 1) ++
    '-' :: twoDigits tm.mday

/-- `%Y-%m-%d-%H-%M-%S` -/
def formatDatetime (tm : Tm) : List Char :=
  formatDate tm ++ '-' :: twoDigits tm.hour ++ '-' :: twoDigits tm.min ++
    '-' :: twoDigits tm.sec

/-- `exe.substr(0, exe.find_last_of('.'))` -/
def withoutExtension (exe : List Char) : List Char :=
  if '.' ∈ exe then
    ((exe.reverse.dropWhile fun c => c != '.').drop 1).reverse
  else exe

/-- The placeholder at the beginning of the text and its value, if its flag
is set.  There is no value when the time cannot be converted. -/
def TemplateValues.placeholder (m : TemplateValues) (flags : TemplateFlags)
    (target : Option (List Char)) (text : List Char) :
    Option (List Char × Option (List Char)) :=
  if TPID.isPrefixOf text then
    if flags.pid then some (TPID, some (decimal m.pid)) else none
  else if TPNAME.isPrefixOf text then
    if flags.pname then some (TPNAME, some (withoutExtension m.exeName))
    else none
  else if TDATETIME.isPrefixOf text then
    if flags.datetime then
      some (TDATETIME, (m.zone.localtime m.now).map formatDatetime)
    else none
  else if TDATE.isPrefixOf text then
    if flags.date then
      some (TDATE, (m.zone.localtime m.now).map formatDate)
    else none
  else if TTARGET.isPrefixOf text then
    if flags.target then some (TTARGET, some (target.getD ['0'])) else none
  else if TEXEPATH.isPrefixOf text then
    if flags.exepath then some (TEXEPATH, some m.executablePath) else none
  else none

/-- The loop over the template.  The first argument counts the characters of
a placeholder that are still to be skipped. -/
def TemplateValues.expand (m : TemplateValues) (flags : TemplateFlags)
    (target : Option (List Char))
    (lookup : List Char → Option (List Char)) :
    Nat → List Char → Option (List Char)
  | _, [] => some []
  | skip + 1, _ :: rest => m.expand flags target lookup skip rest
  | 0, c :: rest =>
      if c = '{' then
        if rest.head? = some '%' ∧ '}' ∈ rest then
          let var := (rest.drop 1).takeWhile fun d => d != '}'
          let next := m.expand flags target lookup (var.length + 2) rest
          if '%' ∈ var then
            next.map ('{' :: '%' :: var ++ '}' :: ·)
          else
            match lookup var with
            | none => none
            | some v => next.map (v ++ ·)
        else
          match m.placeholder flags target (c :: rest) with
          | none => (m.expand flags target lookup 0 rest).map (c :: ·)
          | some (_, none) => none
          | some (name, some value) =>
              (m.expand flags target lookup (name.length - 1) rest).map
                (value ++ ·)
      else (m.expand flags target lookup 0 rest).map (c :: ·)

def TemplateValues.expandNested (m : TemplateValues) (flags : TemplateFlags)
    (target : Option (List Char)) : Nat → List Char → Option (List Char)
  | 0, _ => none
  | depth + 1, text =>
      m.expand flags target
        (fun var => m.expandNested flags target depth (m.envGetVar var)) 0 text

def processTemplate (m : TemplateValues) (flags : TemplateFlags)
    (target : Option (List Char)) (p : List Char) : Option (List Char) :=
  m.expandNested flags target m.stack p

/-! ## `ReplaceDatetimePlaceholders` -/

/-- The characters that the library escapes; the braces are not among
them. -/
def isSpecialChar (c : Char) : Bool :=
  c ∈ ['.', '^', '$', '|', '(', ')', '\\', '[', ']', '*', '+', '?']

def escapeChar (c : Char) : List Char :=
  if isSpecialChar c then ['\\', c] else [c]

def anyTextPattern : List Char := ".+".toList

/-- The second parameter of the source's function is not used there. -/
def replaceDatetimePlaceholders (text : List Char) : List Char :=
  let re := text.flatMap escapeChar
  let re := replaceAll re TDATE anyTextPattern
  let re := replaceAll re TDATETIME anyTextPattern
  replaceAll re (anyTextPattern ++ anyTextPattern) anyTextPattern

/-- `IsAbsolutePath`, not on Windows. -/
def isAbsolutePath (path : List Char) : Bool :=
  path.head? == some '/' || path.head? == some '\\'

end Logme
