import Sfcb.CimXml.Content
import Sfcb.CimXml.UnescapeBounds
import Sfcb.Lib.Rounds

/-!
# The lexer for requests

`yylex` and what it calls (`cimXmlParser.c`), with the pointer that they move through the buffer.
Whatever is read through the pointer is looked up in the buffer, and it is a `fault` if it is not
there: behind the zero at `last`, or through `NULL`.

Mirroring notes:
- A pointer is what it points to: the bytes up to the end of the buffer. What has been written in
  front of the pointer (the zeros that end values and contents) is in the strings that are
  returned.
- `getContent` strips blanks up to the content's begin and no further, as the `>` of the tag is in
  front of it.
- `Throw` ends the process with a message. That of a bad attribute list is built in an area that is
  measured by a string nobody has written, `word`; `junk` is how many bytes it has before its zero.
- A token has the attributes and the content; what `lvalp` has of them is up to the parser.
- `isalpha` and `isalnum` are those of the C locale.
-/

namespace Sfcb.CimXml.Lexer

open Sfcb.Lib Sfcb.Lib.Rounds

/-! ## The buffer -/

/-- Why there is no token. -/
inductive Stop where
  | fault | outOfFuel | thrown
  deriving DecidableEq, Repr

abbrev Lex := Except Stop

/-- A pointer: the bytes from it to the end of the buffer, the zero at `last` among them. The empty
list is a pointer to somewhere else. -/
abbrev Place := CStr

/-- `*p`. -/
def deref : Place → Lex UInt8
  | [] => .error .fault
  | b :: _ => .ok b

/-- The elements, as in `XTOK_CIM` and `ZTOK_CIM`. -/
inductive Tok where
  | CIM | MESSAGE | SIMPLEREQ | IMETHODCALL | METHODCALL | LOCALNAMESPACEPATH | LOCALINSTANCEPATH
  | LOCALCLASSPATH | NAMESPACEPATH | NAMESPACE | IPARAMVALUE | PARAMVALUE | CLASSNAME | VALUEARRAY
  | VALUENAMEDINSTANCE | VALUEREFERENCE | VALUEREFARRAY | VALUE | HOST | KEYVALUE | KEYBINDING
  | INSTANCEPATH | INSTANCENAME | INSTANCE | PROPERTYREFERENCE | PROPERTYARRAY | PROPERTY
  | QUALIFIERDECLARATION | QUALIFIER | SCOPE | PARAMARRAY | PARAMREF | PARAMREFARRAY | PARAM | METHOD
  | CLASS | XML | CDATA
  deriving DecidableEq, Repr

/-- The tokens for the intrinsic methods. -/
inductive IMethod where
  | GETINSTANCE | GETCLASS | ENUMCLASSNAMES | ENUMCLASSES | ENUMINSTANCENAMES | ENUMINSTANCES
  | DELETEINSTANCE | CREATEINSTANCE | MODIFYINSTANCE | ASSOCIATORNAMES | ASSOCIATORS | REFERENCENAMES
  | REFERENCES | EXECQUERY | CREATECLASS | DELETECLASS | GETPROPERTY | SETPROPERTY | GETQUALIFIER
  | SETQUALIFIER | DELETEQUALIFIER | ENUMQUALIFIERS
  deriving DecidableEq, Repr

/-- The tokens for their parameters. -/
inductive IParm where
  | CLASSNAME | INSTANCE | MODIFIEDINSTANCE | INSTANCENAME | OBJECTNAME | LOCALONLY
  | INCLUDEQUALIFIERS | INCLUDECLASSORIGIN | DEEPINHERITANCE | ASSOCCLASS | RESULTCLASS | ROLE
  | RESULTROLE | PROPERTYLIST | QUERYLANG | QUERY | CLASS | QUALIFIERDECLARATION | QUALIFIERNAME
  | PROPERTYNAME | NEWVALUE
  deriving DecidableEq, Repr

/-- What `yylex` returns; `eof` is zero. -/
inductive Token where
  | eof
  | xtok (tok : Tok) (attrs : List (Option CStr)) (content : Option CStr)
  | iMethod (method : IMethod)
  | iParm (parm : IParm)
  | etag (tok : Option Tok)
  deriving DecidableEq, Repr

/-- `base` and `last` are in the pointer. -/
structure XmlBuffer where
  cur : Place
  eTagFound : Bool
  etag : Option Tok
  nulledChar : UInt8
  deriving DecidableEq, Repr

def newXmlBuffer (s : CStr) : XmlBuffer := ⟨s.takeWhile (· ≠ 0) ++ [0], false, none, 0⟩

/-! ## Scanners -/

def isalpha (c : UInt8) : Bool := (65 ≤ c && c ≤ 90) || (97 ≤ c && c ≤ 122)

def isalnum (c : UInt8) : Bool := isalpha c || (48 ≤ c && c ≤ 57)

/-- `*xb->cur <= ' ' && xb->last > xb->cur`. -/
def skipWS : Place → Lex Place
  | [] => .error .fault
  | [b] => .ok [b]
  | b :: c :: p => if skipped b then skipWS (c :: p) else .ok (b :: c :: p)

/-- `strncmp(p, w, strlen(w)) == 0`, or `strncasecmp`: up to the first difference. -/
def begins (same : UInt8 → UInt8 → Bool) : CStr → Place → Lex Bool
  | [], _ => .ok true
  | _ :: _, [] => .error .fault
  | c :: w, b :: p => if same c b then begins same w p else .ok false

/-- Bytes that `strncasecmp` takes for the same. -/
def sameFold (c b : UInt8) : Bool := toLower c == toLower b

def getChars (s : CStr) (cur : Place) : Lex (Option Place) :=
  (begins (· == ·) s cur).map fun found => if found then some (cur.drop s.length) else none

def getChar (c : UInt8) (cur : Place) : Lex (Option Place) :=
  (deref cur).map fun b => if b = c then some cur.tail else none

/-- A word, with no letter or digit behind it: `nextEquals`, and `getWord` without the case. -/
def getWord (same : UInt8 → UInt8 → Bool) (w : CStr) (cur : Place) : Lex (Option Place) :=
  (begins same w cur).bind fun found =>
    if found then
      (deref (cur.drop w.length)).map fun c => if isalnum c then none else some (cur.drop w.length)
    else .ok none

/-- `nextTag`: where the pointer stands then, and the place behind the `<`. -/
def nextTag (xb : XmlBuffer) : Lex (Option Place × XmlBuffer) :=
  if xb.nulledChar ≠ 0 then .ok (some xb.cur.tail, { xb with nulledChar := 0 })
  else
    (skipWS xb.cur).bind fun p =>
      (deref p).map fun c => (if c = 60 then some p.tail else none, { xb with cur := p })

/-- The character behind the `>` is read, and returned. -/
def skipTag : Place → Lex Place
  | [] => .error .fault
  | b :: p =>
    if b ≠ 62 ∧ p ≠ [] then skipTag p
    else (deref p).map fun _ => p

/-- `tagEquals`. Where the `<` has been overwritten and the word is another, the pointer becomes
`NULL`. -/
def tagEquals (t : CStr) (cur : Place) : Lex (Bool × Place) :=
  (deref cur).bind fun c =>
    let sz : Bool := c = 0
    let start := if sz then [] else cur
    (skipWS (if sz then cur.tail else cur)).bind fun p =>
      (if sz then .ok (some p) else getChar 60 p).bind fun
        | none => .ok (false, start)
        | some p =>
          (skipWS p).bind fun p =>
            (getWord (· == ·) t p).map fun
              | none => (false, start)
              | some p => (true, p)

/-- The rest of a value: nothing but the delimiter ends it. -/
def closeValue (dlm : UInt8) : Place → Lex (CStr × Place)
  | [] => .error .fault
  | b :: p => if b = dlm then .ok ([], p) else (closeValue dlm p).map fun r => (b :: r.1, r.2)

/-- A value behind its delimiter, as a string. -/
def getQuoted (dlm : UInt8) (p : Place) : Lex (Option CStr × Place) :=
  (closeValue dlm p).map fun r => (some (r.1.takeWhile (· ≠ 0)), r.2)

def getValue (cur : Place) : Lex (Option CStr × Place) :=
  (skipWS cur).bind fun p =>
    (getChar 34 p).bind fun
      | some p => getQuoted 34 p
      | none =>
        (getChar 39 p).bind fun
          | some p => getQuoted 39 p
          | none => .ok (none, p)

/-! ## Attributes -/

/-- An attribute of the list: its name, and its value once it has been set. -/
structure Attr where
  name : CStr
  value : Option (Option CStr)
  deriving DecidableEq, Repr

/-- The first attribute that has not been set and is named here, and the place behind the name. -/
def findAttr (cur : Place) : Nat → List Attr → Lex (Option (Nat × Place))
  | _, [] => .ok none
  | n, a :: attrs =>
    if a.value.isSome then findAttr cur (n + 1) attrs
    else
      (getWord sameFold a.name cur).bind fun
        | some p => .ok (some (n, p))
        | none => findAttr cur (n + 1) attrs

def setAttr (attrs : List Attr) (n : Nat) (value : Option CStr) : List Attr :=
  attrs.modify n fun a => { a with value := some value }

/-- `strncpy(word, p, n)`. -/
def readWord : Nat → Place → Lex Unit
  | 0, _ => .ok ()
  | _ + 1, [] => .error .fault
  | n + 1, b :: p => if b = 0 then .ok () else readWord n p

/-- A round of the loop over the attributes. -/
def attrRound (st : List Attr × Place) : Lex ((List Attr × Place) ⊕ (List Attr × Place)) :=
  (skipWS st.2).bind fun p =>
    (deref p).bind fun c =>
      if isalpha c then
        (findAttr p 0 st.1).bind fun
          | none => (readWord 20 p).bind fun _ => .error .thrown
          | some (n, p) =>
            (skipWS p).bind fun p =>
              (getChar 61 p).bind fun
                | none => .error .thrown
                | some p => (getValue p).map fun r => .inl (setAttr st.1 n r.1, r.2)
      else .ok (.inr (st.1, p))

/-- The message for a bad attribute list: what is shown of it is to fit into the area. -/
def badAttrs (junk : Nat) (p : Place) : Stop :=
  let wlen := min 20 (p.length - 1)
  if ((p.take wlen).takeWhile (· ≠ 0)).length ≤ junk ∧ junk ≤ 20 then .thrown else .fault

/-- `attrsOk`: the values, and whether the element is empty. -/
def attrsOk (junk : Nat) (e : List CStr) (tag : CStr) (cur : Place) :
    Lex (List (Option CStr) × Bool × Place) :=
  (rounds .outOfFuel attrRound (cur.length + 1) (e.map (⟨·, none⟩), cur)).bind fun (attrs, p) =>
    let values := attrs.map fun a => a.value.join
    (getChars (lit "/>") p).bind fun
      | some p => .ok (values, true, p)
      | none =>
        (getChar 62 p).bind fun
          | some p => .ok (values, false, p)
          | none =>
            (getChars (lit "?>") p).bind fun
              | some p => if tag = lit "?xml" then .ok (values, true, p) else .error (badAttrs junk p)
              | none => .error (badAttrs junk p)

/-! ## Contents -/

/-- The content, and where it ends. -/
def scanContent : Place → Lex (CStr × Place)
  | [] => .error .fault
  | b :: p =>
    if b ≠ 60 ∧ p ≠ [] then (scanContent p).map fun r => (b :: r.1, r.2) else .ok ([], b :: p)

/-- The bytes of the buffer from here on, and those of `escchar`. -/
def Inside (size : Nat) : Access → Bool
  | .read pos count => count = 0 ∨ pos + count ≤ size
  | .write pos count => count = 0 ∨ pos + count ≤ size
  | .readLocal pos count => pos + count ≤ 10
  | .writeLocal pos count => pos + count ≤ 10

/-- The loop over a text of which `len` bytes are left. What it removes is made up for at the end
of the text, if `pad` does so. -/
def unescapeRound (pad : Nat → Nat → CStr → CStr) (st : CStr × CStr × Nat) :
    Lex ((CStr × CStr × Nat) ⊕ CStr) :=
  match st with
  | (done, mem, 0) => .ok (.inr (done ++ mem))
  | (_, [], _ + 1) => .error .fault
  | (done, b :: mem, len + 1) =>
    if b = 38 then
      let out := xmlUnescapeAt (b :: mem) (len + 1)
      -- `memmove` is not to be given a negative size
      if out.log.all (Inside (mem.length + 1)) ∧ out.removed ≤ len then
        let mem' := pad (len + 1 - out.removed) out.removed out.mem
        .ok (.inl (done ++ mem'.take 1, mem'.tail, len - out.removed))
      else .error .fault
    else .ok (.inl (done ++ [b], mem, len))

def unescapeAll (pad : Nat → Nat → CStr → CStr) (mem : CStr) (len : Nat) : Lex CStr :=
  rounds .outOfFuel (unescapeRound pad) (len + 1) ([], mem, len)

/-- `getContent`: the content, and the pointer and `nulledChar`. -/
def getContent (cur : Place) : Lex (CStr × Place × UInt8) :=
  (scanContent cur).bind fun (content, p) =>
    let start := content.dropWhile fun b => b ≠ 0 ∧ skipped b
    let kept := start.rdropWhile skipped
    let behind := List.replicate (start.length - kept.length) 0 ++ 0 :: p.tail
    (unescapeAll (fun _ _ mem => mem) (kept ++ behind) kept.length).map fun mem =>
      (mem.takeWhile (· ≠ 0), 0 :: p.tail, p.headD 0)

/-- `strstr`: up to the first occurrence, or to the zero. -/
def strstrAt (needle : CStr) : Place → Lex (Option Place)
  | [] => .error .fault
  | b :: p =>
    (begins (· == ·) needle (b :: p)).bind fun found =>
      if found then .ok (some (b :: p)) else if b = 0 then .ok none else strstrAt needle p

/-- `memset(end, ' ', fewer)`. -/
def blankOut (fin fewer : Nat) (mem : CStr) : CStr :=
  mem.take fin ++ List.replicate fewer 32 ++ mem.drop (fin + fewer)

/-- An embedded object is unescaped in place. -/
def unescapeEmbedded (cur : Place) : Lex Place :=
  (strstrAt (lit "</PARAMVALUE") cur).bind fun
    | none => .ok cur
    | some fin => unescapeAll blankOut cur (cur.length - fin.length)

/-! ## Elements -/

/-- What is done behind the attributes of an element. -/
inductive Follow where
  /-- the token is returned -/
  | token
  /-- the content is read -/
  | content
  /-- the token is that of a method, or of a parameter, with the name -/
  | iMethod
  | iParm
  /-- `EmbeddedObject` is one of two words, and the content is unescaped -/
  | paramValue
  /-- the attribute with this number is, if it is there -/
  | embedded (n : Nat)
  /-- the attribute with this number goes to `atoi` -/
  | arraySize (n : Nat)
  /-- the end of the section becomes an end tag -/
  | cdata
  deriving DecidableEq, Repr

/-- A function `proc…`: the word, the attributes, the two tokens, and what follows. -/
structure Proc where
  word : CStr
  elm : List CStr
  etag : Tok
  xtok : Tok
  follow : Follow
  deriving DecidableEq, Repr

def iMethods : List (CStr × IMethod) :=
  [(lit "getInstance", .GETINSTANCE), (lit "getClass", .GETCLASS),
    (lit "enumerateClassNames", .ENUMCLASSNAMES), (lit "enumerateClasses", .ENUMCLASSES),
    (lit "enumerateInstanceNames", .ENUMINSTANCENAMES), (lit "enumerateInstances", .ENUMINSTANCES),
    (lit "deleteInstance", .DELETEINSTANCE), (lit "createInstance", .CREATEINSTANCE),
    (lit "modifyInstance", .MODIFYINSTANCE), (lit "associatorNames", .ASSOCIATORNAMES),
    (lit "associators", .ASSOCIATORS), (lit "referenceNames", .REFERENCENAMES),
    (lit "references", .REFERENCES), (lit "execQuery", .EXECQUERY),
    (lit "createClass", .CREATECLASS), (lit "deleteClass", .DELETECLASS),
    (lit "getProperty", .GETPROPERTY), (lit "setProperty", .SETPROPERTY),
    (lit "getQualifier", .GETQUALIFIER), (lit "setQualifier", .SETQUALIFIER),
    (lit "deleteQualifier", .DELETEQUALIFIER), (lit "enumerateQualifiers", .ENUMQUALIFIERS)]

def iParms : List (CStr × IParm) :=
  [(lit "classname", .CLASSNAME), (lit "newinstance", .INSTANCE),
    (lit "modifiedinstance", .MODIFIEDINSTANCE), (lit "instancename", .INSTANCENAME),
    (lit "objectname", .OBJECTNAME), (lit "localonly", .LOCALONLY),
    (lit "IncludeQualifiers", .INCLUDEQUALIFIERS), (lit "IncludeClassOrigin", .INCLUDECLASSORIGIN),
    (lit "deepInheritance", .DEEPINHERITANCE), (lit "assocclass", .ASSOCCLASS),
    (lit "resultclass", .RESULTCLASS), (lit "role", .ROLE), (lit "resultrole", .RESULTROLE),
    (lit "propertylist", .PROPERTYLIST), (lit "querylanguage", .QUERYLANG), (lit "query", .QUERY),
    (lit "newclass", .CLASS), (lit "qualifierdeclaration", .QUALIFIERDECLARATION),
    (lit "qualifiername", .QUALIFIERNAME), (lit "propertyname", .PROPERTYNAME),
    (lit "newValue", .NEWVALUE)]

/-- The entry with a name; the name is read even if it is `NULL`. -/
def lookUp {τ : Type} (table : List (CStr × τ)) (name : Option CStr) : Lex (Option τ) :=
  match name with
  | none => .error .fault
  | some name => .ok ((table.find? fun e => strcasecmp name e.1 = 0).map (·.2))

/-- `EmbeddedObject`. -/
def embeddedObject (value : CStr) : Bool :=
  strcasecmp value (lit "instance") = 0 ∨ strcasecmp value (lit "object") = 0

/-- The end of a `proc…`. -/
def Proc.finish (e : Proc) (attrs : List (Option CStr)) (xb : XmlBuffer) : Lex (Token × XmlBuffer) :=
  let token := Token.xtok e.xtok attrs none
  match e.follow with
  | .token => .ok (token, xb)
  | .content =>
    if xb.eTagFound then .ok (token, xb)
    else
      (getContent xb.cur).map fun (content, p, c) =>
        (.xtok e.xtok attrs (some content), { xb with cur := p, nulledChar := c })
  | .iMethod =>
    (lookUp iMethods (attrs.getD 0 none)).map fun found => ((found.map Token.iMethod).getD .eof, xb)
  | .iParm =>
    (lookUp iParms (attrs.getD 0 none)).map fun found => ((found.map Token.iParm).getD .eof, xb)
  | .paramValue =>
    match attrs.getD 2 none with
    | none => .ok (token, xb)
    | some value =>
      if embeddedObject value then
        (unescapeEmbedded xb.cur).map fun p => (token, { xb with cur := p })
      else .error .thrown
  | .embedded n =>
    match attrs.getD n none with
    | none => .ok (token, xb)
    | some value => if embeddedObject value then .ok (token, xb) else .error .thrown
  | .arraySize n =>
    match attrs.getD n none with
    | none => .error .fault
    | some _ => .ok (token, xb)
  | .cdata =>
    (strstrAt (lit "]]>") xb.cur).map fun
      | none => (.eof, xb)
      | some v =>
        (token, { xb with cur := xb.cur.take (xb.cur.length - v.length) ++ 60 :: 47 :: v.drop 2 })

/-- `parm->xmb->cur[0] = '>'`, in front of the attributes of a section. -/
def Proc.enter (e : Proc) (cur : Place) : Lex Place :=
  if e.follow = .cdata then (deref cur).map fun _ => 62 :: cur.tail else .ok cur

/-- A function `proc…`. -/
def Proc.run (junk : Nat) (e : Proc) (xb : XmlBuffer) : Lex (Token × XmlBuffer) :=
  (tagEquals e.word xb.cur).bind fun (found, p) =>
    if found then
      (e.enter p).bind fun p =>
        (attrsOk junk e.elm e.word p).bind fun (attrs, empty, p) =>
          e.finish attrs { xb with
            cur := p, eTagFound := empty, etag := if empty then some e.etag else xb.etag }
    else .ok (.eof, { xb with cur := p })

def procCim : Proc := ⟨lit "CIM", [lit "CIMVERSION", lit "DTDVERSION"], .CIM, .CIM, .token⟩

def procMessage : Proc :=
  ⟨lit "MESSAGE", [lit "ID", lit "PROTOCOLVERSION"], .MESSAGE, .MESSAGE, .token⟩

def procSimplereq : Proc := ⟨lit "SIMPLEREQ", [], .SIMPLEREQ, .SIMPLEREQ, .token⟩

def procImethodCall : Proc :=
  ⟨lit "IMETHODCALL", [lit "NAME"], .IMETHODCALL, .IMETHODCALL, .iMethod⟩

def procMethodCall : Proc := ⟨lit "METHODCALL", [lit "NAME"], .METHODCALL, .METHODCALL, .token⟩

def procLocalNameSpacePath : Proc :=
  ⟨lit "LOCALNAMESPACEPATH", [], .LOCALNAMESPACEPATH, .LOCALNAMESPACEPATH, .token⟩

def procLocalInstancePath : Proc :=
  ⟨lit "LOCALINSTANCEPATH", [], .LOCALINSTANCEPATH, .LOCALINSTANCEPATH, .token⟩

def procLocalClassPath : Proc :=
  ⟨lit "LOCALCLASSPATH", [], .LOCALCLASSPATH, .LOCALCLASSPATH, .token⟩

def procNameSpacePath : Proc := ⟨lit "NAMESPACEPATH", [], .NAMESPACEPATH, .NAMESPACEPATH, .content⟩

def procNameSpace : Proc := ⟨lit "NAMESPACE", [lit "NAME"], .NAMESPACE, .NAMESPACE, .token⟩

def procIParamValue : Proc := ⟨lit "IPARAMVALUE", [lit "NAME"], .IPARAMVALUE, .IPARAMVALUE, .iParm⟩

def procParamValue : Proc :=
  ⟨lit "PARAMVALUE",
    [lit "NAME", lit "PARAMTYPE", lit "EmbeddedObject"],
    .PARAMVALUE, .PARAMVALUE, .paramValue⟩

def procClassName : Proc := ⟨lit "CLASSNAME", [lit "NAME"], .CLASSNAME, .CLASSNAME, .token⟩

def procValueArray : Proc := ⟨lit "VALUE.ARRAY", [], .VALUEARRAY, .VALUEARRAY, .token⟩

def procValueNamedInstance : Proc :=
  ⟨lit "VALUE.NAMEDINSTANCE", [], .VALUENAMEDINSTANCE, .VALUENAMEDINSTANCE, .content⟩

def procValueReference : Proc :=
  ⟨lit "VALUE.REFERENCE", [], .VALUEREFERENCE, .VALUEREFERENCE, .content⟩

def procValueRefArray : Proc := ⟨lit "VALUE.REFARRAY", [], .VALUEREFARRAY, .VALUEREFARRAY, .token⟩

def procValue : Proc := ⟨lit "VALUE", [], .VALUE, .VALUE, .content⟩

def procHost : Proc := ⟨lit "HOST", [], .HOST, .HOST, .content⟩

def procKeyValue : Proc :=
  ⟨lit "KEYVALUE", [lit "VALUETYPE", lit "TYPE"], .KEYVALUE, .KEYVALUE, .content⟩

def procKeyBinding : Proc := ⟨lit "KEYBINDING", [lit "NAME"], .KEYBINDING, .KEYBINDING, .token⟩

def procInstancePath : Proc := ⟨lit "INSTANCEPATH", [], .INSTANCEPATH, .INSTANCEPATH, .content⟩

def procInstanceName : Proc :=
  ⟨lit "INSTANCENAME", [lit "CLASSNAME"], .INSTANCENAME, .INSTANCENAME, .token⟩

def procInstance : Proc := ⟨lit "INSTANCE", [lit "CLASSNAME"], .INSTANCE, .INSTANCE, .token⟩

def procPropertyReference : Proc :=
  ⟨lit "PROPERTY.REFERENCE",
    [lit "NAME", lit "REFERENCECLASS", lit "CLASSORIGIN", lit "PROPAGATED"],
    .PROPERTYREFERENCE, .PROPERTYREFERENCE, .token⟩

def procPropertyArray : Proc :=
  ⟨lit "PROPERTY.ARRAY",
    [lit "NAME", lit "TYPE", lit "CLASSORIGIN", lit "PROPAGATED",
      lit "ARRAYSIZE", lit "EmbeddedObject"],
    .PROPERTYARRAY, .PROPERTYARRAY, .embedded 5⟩

def procProperty : Proc :=
  ⟨lit "PROPERTY",
    [lit "NAME", lit "TYPE", lit "CLASSORIGIN", lit "PROPAGATED", lit "EmbeddedObject"],
    .PROPERTY, .PROPERTY, .embedded 4⟩

def procQualifierDeclaration : Proc :=
  ⟨lit "QUALIFIER.DECLARATION",
    [lit "NAME", lit "TYPE", lit "ISARRAY", lit "ARRAYSIZE", lit "OVERRIDABLE",
      lit "TOSUBCLASS", lit "TOINSTANCE", lit "TRANSLATABLE"],
    .QUALIFIERDECLARATION, .QUALIFIERDECLARATION, .token⟩

def procQualifier : Proc :=
  ⟨lit "QUALIFIER",
    [lit "NAME", lit "TYPE", lit "PROPAGATED", lit "OVERRIDABLE",
      lit "TOSUBCLASS", lit "TOINSTANCE", lit "TRANSLATABLE"],
    .QUALIFIER, .QUALIFIER, .token⟩

def procScope : Proc :=
  ⟨lit "SCOPE",
    [lit "CLASS", lit "ASSOCIATION", lit "REFERENCE", lit "PROPERTY",
      lit "METHOD", lit "PARAMETER", lit "INDICATION"],
    .SCOPE, .SCOPE, .token⟩

def procParamArray : Proc :=
  ⟨lit "PARAMETER.ARRAY", [lit "NAME", lit "TYPE", lit "ARRAYSIZE"], .PARAM, .PARAM, .arraySize 2⟩

def procParamRef : Proc :=
  ⟨lit "PARAMETER.REFERENCE", [lit "NAME", lit "REFERENCECLASS"], .PARAM, .PARAM, .token⟩

def procParamRefArray : Proc :=
  ⟨lit "PARAMETER.REFARRAY",
    [lit "NAME", lit "REFERENCECLASS", lit "ARRAYSIZE"],
    .PARAM, .PARAM, .arraySize 2⟩

def procParam : Proc := ⟨lit "PARAMETER", [lit "NAME", lit "TYPE"], .PARAM, .PARAM, .token⟩

def procMethod : Proc :=
  ⟨lit "METHOD",
    [lit "NAME", lit "TYPE", lit "CLASSORIGIN", lit "PROPAGATED"],
    .METHOD, .METHOD, .token⟩

def procClass : Proc := ⟨lit "CLASS", [lit "NAME", lit "SUPERCLASS"], .CLASS, .CLASS, .token⟩

def procXml : Proc :=
  ⟨lit "?xml", [lit "version", lit "encoding", lit "standalone"], .XML, .XML, .token⟩

def procCdata : Proc := ⟨lit "![CDATA[", [], .CDATA, .CDATA, .cdata⟩

/-! ## Tokens -/

/-- An entry of `tags`. -/
structure Tags where
  tag : CStr
  process : Proc
  etag : Tok
  deriving DecidableEq, Repr

def tags : List Tags :=
  [⟨lit "CIM", procCim, .CIM⟩, ⟨lit "MESSAGE", procMessage, .MESSAGE⟩,
    ⟨lit "SIMPLEREQ", procSimplereq, .SIMPLEREQ⟩,
    ⟨lit "IMETHODCALL", procImethodCall, .IMETHODCALL⟩,
    ⟨lit "METHODCALL", procMethodCall, .METHODCALL⟩,
    ⟨lit "LOCALNAMESPACEPATH", procLocalNameSpacePath, .LOCALNAMESPACEPATH⟩,
    ⟨lit "LOCALINSTANCEPATH", procLocalInstancePath, .LOCALINSTANCEPATH⟩,
    ⟨lit "LOCALCLASSPATH", procLocalClassPath, .LOCALCLASSPATH⟩,
    ⟨lit "NAMESPACEPATH", procNameSpacePath, .NAMESPACEPATH⟩,
    ⟨lit "NAMESPACE", procNameSpace, .NAMESPACE⟩,
    ⟨lit "IPARAMVALUE", procIParamValue, .IPARAMVALUE⟩,
    ⟨lit "PARAMVALUE", procParamValue, .PARAMVALUE⟩, ⟨lit "CLASSNAME", procClassName, .CLASSNAME⟩,
    ⟨lit "VALUE.ARRAY", procValueArray, .VALUEARRAY⟩,
    ⟨lit "VALUE.NAMEDINSTANCE", procValueNamedInstance, .VALUENAMEDINSTANCE⟩,
    ⟨lit "VALUE.REFERENCE", procValueReference, .VALUEREFERENCE⟩,
    ⟨lit "VALUE.REFARRAY", procValueRefArray, .VALUEREFARRAY⟩, ⟨lit "VALUE", procValue, .VALUE⟩,
    ⟨lit "HOST", procHost, .HOST⟩, ⟨lit "KEYVALUE", procKeyValue, .KEYVALUE⟩,
    ⟨lit "KEYBINDING", procKeyBinding, .KEYBINDING⟩,
    ⟨lit "INSTANCEPATH", procInstancePath, .INSTANCEPATH⟩,
    ⟨lit "INSTANCENAME", procInstanceName, .INSTANCENAME⟩,
    ⟨lit "INSTANCE", procInstance, .INSTANCE⟩,
    ⟨lit "PROPERTY.REFERENCE", procPropertyReference, .PROPERTYREFERENCE⟩,
    ⟨lit "PROPERTY.ARRAY", procPropertyArray, .PROPERTYARRAY⟩,
    ⟨lit "PROPERTY", procProperty, .PROPERTY⟩,
    ⟨lit "QUALIFIER.DECLARATION", procQualifierDeclaration, .QUALIFIERDECLARATION⟩,
    ⟨lit "QUALIFIER", procQualifier, .QUALIFIER⟩, ⟨lit "SCOPE", procScope, .SCOPE⟩,
    ⟨lit "PARAMETER.ARRAY", procParamArray, .PARAMARRAY⟩,
    ⟨lit "PARAMETER.REFERENCE", procParamRef, .PARAMREF⟩,
    ⟨lit "PARAMETER.REFARRAY", procParamRefArray, .PARAMREFARRAY⟩,
    ⟨lit "PARAMETER", procParam, .PARAM⟩, ⟨lit "METHOD", procMethod, .METHOD⟩,
    ⟨lit "CLASS", procClass, .CLASS⟩, ⟨lit "?xml", procXml, .XML⟩,
    ⟨lit "![CDATA[", procCdata, .CDATA⟩, ⟨lit "", procCdata, .CDATA⟩]

/-- The first entry that is named here. -/
def findTag (next : Place) : List Tags → Lex (Option Tags)
  | [] => .ok none
  | t :: rest =>
    (getWord (· == ·) t.tag next).bind fun
      | some _ => .ok (some t)
      | none => findTag next rest

/-- A round of `yylex`: a comment is skipped, anything else ends it. Where the end of a comment is
not found, the pointer becomes `NULL + 3`. -/
def yylexRound (junk : Nat) (xb : XmlBuffer) : Lex (XmlBuffer ⊕ (Token × XmlBuffer)) :=
  (nextTag xb).bind fun
    | (none, xb) => .ok (.inr (.eof, xb))
    | (some next, xb) =>
      if xb.eTagFound then .ok (.inr (.etag xb.etag, { xb with eTagFound := false }))
      else
        (deref next).bind fun c =>
          if c = 47 then
            (findTag next.tail tags).bind fun
              | none => .ok (.inr (.eof, xb))
              | some t =>
                (skipTag xb.cur).map fun p => .inr (.etag (some t.etag), { xb with cur := p })
          else
            (begins (· == ·) (lit "<!--") xb.cur).bind fun comment =>
              if comment then
                (strstrAt (lit "-->") xb.cur).map fun found =>
                  .inl { xb with cur := (found.map (·.drop 3)).getD [] }
              else
                (findTag next tags).bind fun
                  | none => .ok (.inr (.eof, xb))
                  | some t => (t.process.run junk xb).map .inr

def yylex (junk : Nat) (xb : XmlBuffer) : Lex (Token × XmlBuffer) :=
  rounds .outOfFuel (yylexRound junk) (xb.cur.length + 1) xb

/-- The calls of the parser, as long as there are tokens. -/
def tokenRound (junk : Nat) (st : List Token × XmlBuffer) :
    Lex ((List Token × XmlBuffer) ⊕ List Token) :=
  (yylex junk st.2).map fun (token, xb) =>
    if token = .eof then .inr st.1 else .inl (st.1 ++ [token], xb)

/-- The tokens of a request. -/
def tokens (junk : Nat) (body : CStr) : Lex (List Token) :=
  rounds .outOfFuel (tokenRound junk) (2 * (newXmlBuffer body).cur.length + 1) ([], newXmlBuffer body)

end Sfcb.CimXml.Lexer
