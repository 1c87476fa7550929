import Cos.Lib.Text
import Cos.Lib.Run
import Mathlib.Algebra.Group.Nat.Defs

/-! # The cookie jar

What http.c keeps of Set-Cookie texts and puts into later requests.  A text is
the characters of a C string up to its end. -/

namespace Cos.Http

open Cos.Lib

abbrev Text := List Char

def httpMaxHost : Nat := 256
def httpMaxPath : Nat := 1024
def httpCookieMax : Nat := 32
def httpCookieNameMax : Nat := 128
def httpCookieValueMax : Nat := 512
def httpCookiePathMax : Nat := 256
def cookieLineMax : Nat := 1024

inductive Scheme
  | http
  | https
deriving DecidableEq

/-- Where a response comes from, a document lies or a request goes to. -/
structure Origin where
  scheme : Scheme
  host : Text
  path : Text
  hostFits : host.length < httpMaxHost
  pathFits : path.length < httpMaxPath
deriving DecidableEq

/-- A Set-Cookie text with what it was read from: the line it stands in, and the text that is handed
on, which goes on behind that line. -/
structure Given where
  origin : Origin
  line : Text
  text : Text
deriving DecidableEq

structure Cookie where
  active : Bool
  secure : Bool
  host : Text
  path : Text
  name : Text
  value : Text
  /-- Auxiliary: what the cookie was last stored from. -/
  given : Option Given
deriving DecidableEq

def Cookie.clear : Cookie := ⟨false, false, [], [], [], [], none⟩

abbrev Jar := List Cookie

def httpCopyText (size : Nat) (src : Text) : Text :=
  src.take (size - 1)

def isBlank (c : Char) : Bool :=
  decide (c = ' ' ∨ c = '\t')

def atoiDigits : Text → Int → Int
  | [], n => n
  | c :: rest, n => if '0' ≤ c ∧ c ≤ '9' then atoiDigits rest ((n * 10 + (c.toNat - 48)).bmod (2 ^ 32)) else n

def atoi (s : Text) : Int :=
  match s.dropWhile (· = ' ') with
  | '-' :: rest => (-atoiDigits rest 0).bmod (2 ^ 32)
  | '+' :: rest => atoiDigits rest 0
  | rest => atoiDigits rest 0

def directory (path : Text) : Text :=
  match (path.reverse.dropWhile (· ≠ '/')).reverse with
  | [] => ['/']
  | upTo => upTo

def httpPathDir (size : Nat) (path : Text) : Text :=
  directory (path.take (size - 1))

def splitPair (text : Text) : Option (Text × Text) :=
  match text.dropWhile (· ≠ '=') with
  | [] => none
  | _ :: value => if text.takeWhile (· ≠ '=') = [] then none else some (text.takeWhile (· ≠ '='),
    value)

def domainKey : Text := "Domain=".toList
def pathKey : Text := "Path=".toList
def secureKey : Text := "Secure".toList
def maxAgeKey : Text := "Max-Age=".toList

def valueOf (key attr : Text) : Option Text :=
  if ciStartsWith attr key then some (attr.drop key.length) else none

def stripDots (host : Text) : Text :=
  host.dropWhile (· = '.')

structure Draft where
  host : Text
  path : Text
  secure : Bool
  remove : Bool

def Draft.attribute (d : Draft) (attr : Text) : Draft :=
  if 7 ≤ attr.length ∧ ciStartsWith attr domainKey then
    { d with host := stripDots (httpCopyText httpMaxHost (attr.drop 7)) }
  else if 5 ≤ attr.length ∧ ciStartsWith attr pathKey then
    { d with path := match httpCopyText httpCookiePathMax (attr.drop 5) with
        | [] => ['/']
        | path => path }
  else if 6 ≤ attr.length ∧ ciStartsWith attr secureKey then { d with secure := true }
  else if 8 ≤ attr.length ∧ ciStartsWith attr maxAgeKey then
    if atoi (attr.drop 8) ≤ 0 then { d with remove := true } else d
  else d

/-- The attributes behind a name and value, without the blanks before them. -/
def attributes (text : Text) : List Text :=
  (pieces ';' text).tail.map (·.dropWhile isBlank)

def pairPart (text : Text) : Text :=
  (pieces ';' text).headD []

/-- What a Set-Cookie text says, as http_store_cookie_from_parts reads it. -/
structure Parts where
  name : Text
  value : Text
  draft : Draft

def Given.read (g : Given) : Text :=
  httpCopyText cookieLineMax g.text

def Given.parts (g : Given) : Option Parts :=
  match splitPair (pairPart g.read) with
  | none => none
  | some (name, value) =>
      some ⟨httpCopyText httpCookieNameMax name, httpCopyText httpCookieValueMax value,
        (attributes g.read).foldl Draft.attribute
          ⟨httpCopyText httpMaxHost g.origin.host, httpPathDir httpCookiePathMax g.origin.path,
            decide (g.origin.scheme = .https), false⟩⟩

def Cookie.isFor (c : Cookie) (p : Parts) : Bool :=
  c.active && ciEqual c.host p.draft.host && ciEqual c.path p.draft.path && ciEqual c.name p.name

/-- The entry for a cookie that has one keeps its host, path and name. -/
def Jar.update (jar : Jar) (i : Nat) (g : Given) (p : Parts) : Jar :=
  jar.modify i fun c => { c with value := p.value, secure := p.draft.secure, given := some g }

def Jar.store (jar : Jar) (g : Given) : Jar :=
  match g.parts with
  | none => jar
  | some p =>
      match jar.findIdx? (·.isFor p) with
      | some i => if p.draft.remove then jar.set i Cookie.clear else jar.update i g p
      | none =>
          if p.draft.remove then jar
          else match jar.findIdx? (!·.active) with
            | some i => jar.set i ⟨true, p.draft.secure, p.draft.host, p.draft.path, p.name, p.value, some g⟩
            | none => jar

def cString (bytes : Text) : Text :=
  bytes.takeWhile (· ≠ '\x00')

/-- The text before the first empty line, or all of it where there is none. -/
def headerBlock : Text → Text
  | [] => []
  | '\r' :: '\n' :: '\r' :: '\n' :: _ => []
  | c :: rest => c :: headerBlock rest

def hasHeaderEnd : Text → Bool
  | [] => false
  | '\r' :: '\n' :: '\r' :: '\n' :: _ => true
  | _ :: rest => hasHeaderEnd rest

def firstLine : Text → Text
  | [] => []
  | '\r' :: '\n' :: _ => []
  | c :: rest => c :: firstLine rest

def laterLines : Text → List Text
  | [] => []
  | '\r' :: '\n' :: rest => rest :: laterLines rest
  | _ :: rest => laterLines rest

def setCookieKey : Text := "Set-Cookie:".toList

/-- The Set-Cookie lines of a header block, each with the rest of the block from its value on. -/
def setCookies (block : Text) : List Text :=
  (block :: laterLines block).filterMap fun p => (valueOf setCookieKey p).map (·.dropWhile isBlank)

/-- http_store_cookies_from_response hands on a pointer into the whole block. -/
def responseGivens (origin : Origin) (response : Text) : List Given :=
  (setCookies (headerBlock (cString response))).map fun value => ⟨origin, firstLine value, value⟩

/-- The fetcher copies each line out of the block, as far as its buffer goes, and leaves a response
without an end of its headers alone. -/
def fetchedGivens (origin : Origin) (response : Text) : List Given :=
  if hasHeaderEnd (cString response) then
    ((headerBlock (cString response) :: laterLines (headerBlock (cString response))).filter
      fun p => decide (11 < (firstLine p).length)).filterMap fun p =>
        (valueOf setCookieKey p).map fun value =>
          ⟨origin, firstLine (value.dropWhile isBlank), httpCopyText cookieLineMax (firstLine (value.dropWhile isBlank))⟩
  else []

def httpHostMatchesCookie (host cookieHost : Text) : Bool :=
  if cookieHost = [] then false
  else if ciEqual host cookieHost then true
  else if host.length ≤ cookieHost.length then false
  else if host.drop (host.length - cookieHost.length) ≠ cookieHost then false
  else decide (host[host.length - cookieHost.length - 1]? = some '.')

def httpPathMatchesCookie (reqPath cookiePath : Text) : Bool :=
  if cookiePath.head? ≠ some '/' then false
  else if cookiePath.length = 1 then decide (0 < reqPath.length ∧ reqPath.head? = some '/')
  else if reqPath.length < cookiePath.length then false
  else if reqPath.take cookiePath.length ≠ cookiePath then false
  else if reqPath.length = cookiePath.length then true
  else if cookiePath.getLast? = some '/' then true
  else decide (reqPath[cookiePath.length]? = some '/')

def Cookie.goes (c : Cookie) (o : Origin) : Bool :=
  c.active && httpHostMatchesCookie o.host c.host && !(decide (o.scheme = .http) && c.secure) &&
    httpPathMatchesCookie o.path c.path

def Cookie.shown (c : Cookie) : Text :=
  c.name ++ '=' :: c.value

/-- The loop of http_append_cookie_header_for_parts over the slots.  The formatter writes as much as
there is room for and returns how much that is, so that its result never reaches the room that is
left. -/
def appendCookies (o : Origin) (size : Nat) : Jar → Text → Bool → Text
  | [], out, _ => out
  | c :: rest, out, first =>
      if c.goes o then
        let text := ((if first then [] else "; ".toList) ++ c.shown).take (size - out.length - 1)
        if size - out.length ≤ text.length then out else appendCookies o size rest (out ++ text) false
      else appendCookies o size rest out first

/-- Auxiliary: a request that was made, with the cookies that were put into it. -/
structure Sent where
  origin : Origin
  text : Text
deriving DecidableEq

structure World where
  jar : Jar
  /-- Auxiliary: every Set-Cookie line and every write to document.cookie. -/
  givens : List Given
  sent : List Sent

def World.start : World := ⟨List.replicate httpCookieMax Cookie.clear, [], []⟩

inductive Step
  /-- http_store_cookies_from_response -/
  | response (origin : Origin) (bytes : Text)
  /-- http_store_cookie_header_for, for the lines of a response the fetcher got. -/
  | fetched (origin : Origin) (bytes : Text)
  /-- http_set_document_cookie_for_url -/
  | write (origin : Origin) (text : Text)
  /-- http_append_cookie_header_for_parts, for a request or a read of document.cookie, with the size
  of the buffer. -/
  | request (origin : Origin) (size : Nat)

def World.take (w : World) (g : Given) : World :=
  { w with
    jar := w.jar.store g
    givens := g :: w.givens }

def World.step (w : World) : Step → World
  | .response origin bytes => (responseGivens origin bytes).foldl World.take w
  | .fetched origin bytes => (fetchedGivens origin bytes).foldl World.take w
  | .write origin text => w.take ⟨origin, cString text, cString text⟩
  | .request origin size =>
      if size = 0 then w else { w with sent := ⟨origin, appendCookies origin size w.jar [] true⟩ :: w.sent }

end Cos.Http
