/-!
Contract: the named character references of HTML whose names start with one of the letters from a to m.

Owns: one table for each initial, in the order of the names; a name is listed
without its ampersand and semicolon, next to the character it stands for.

Where HTML gives a name two characters, the table has the first one only.
-/

set_option autoImplicit false

namespace ForumMarkup.Entity

def lowerA : List (String × Char) :=
  [ ("aacute", '\u00e1'), ("abreve", '\u0103'), ("ac", '\u223e'), ("acE", '\u223e'),
    ("acd", '\u223f'), ("acirc", '\u00e2'), ("acute", '\u00b4'), ("acy", '\u0430'),
    ("aelig", '\u00e6'), ("af", '\u2061'), ("afr", '𝔞'), ("agrave", '\u00e0'),
    ("alefsym", '\u2135'), ("aleph", '\u2135'), ("alpha", '\u03b1'), ("amacr", '\u0101'),
    ("amalg", '\u2a3f'), ("amp", '\u0026'), ("and", '\u2227'), ("andand", '\u2a55'),
    ("andd", '\u2a5c'), ("andslope", '\u2a58'), ("andv", '\u2a5a'), ("ang", '\u2220'),
    ("ange", '\u29a4'), ("angle", '\u2220'), ("angmsd", '\u2221'), ("angmsdaa", '\u29a8'),
    ("angmsdab", '\u29a9'), ("angmsdac", '\u29aa'), ("angmsdad", '\u29ab'), ("angmsdae", '\u29ac'),
    ("angmsdaf", '\u29ad'), ("angmsdag", '\u29ae'), ("angmsdah", '\u29af'), ("angrt", '\u221f'),
    ("angrtvb", '\u22be'), ("angrtvbd", '\u299d'), ("angsph", '\u2222'), ("angst", '\u00c5'),
    ("angzarr", '\u237c'), ("aogon", '\u0105'), ("aopf", '𝕒'), ("ap", '\u2248'), ("apE", '\u2a70'),
    ("apacir", '\u2a6f'), ("ape", '\u224a'), ("apid", '\u224b'), ("apos", '\u0027'),
    ("approx", '\u2248'), ("approxeq", '\u224a'), ("aring", '\u00e5'), ("ascr", '𝒶'),
    ("ast", '\u002a'), ("asymp", '\u2248'), ("asympeq", '\u224d'), ("atilde", '\u00e3'),
    ("auml", '\u00e4'), ("awconint", '\u2233'), ("awint", '\u2a11') ]

def lowerB : List (String × Char) :=
  [ ("bNot", '\u2aed'), ("backcong", '\u224c'), ("backepsilon", '\u03f6'), ("backprime", '\u2035'),
    ("backsim", '\u223d'), ("backsimeq", '\u22cd'), ("barvee", '\u22bd'), ("barwed", '\u2305'),
    ("barwedge", '\u2305'), ("bbrk", '\u23b5'), ("bbrktbrk", '\u23b6'), ("bcong", '\u224c'),
    ("bcy", '\u0431'), ("bdquo", '\u201e'), ("becaus", '\u2235'), ("because", '\u2235'),
    ("bemptyv", '\u29b0'), ("bepsi", '\u03f6'), ("bernou", '\u212c'), ("beta", '\u03b2'),
    ("beth", '\u2136'), ("between", '\u226c'), ("bfr", '𝔟'), ("bigcap", '\u22c2'),
    ("bigcirc", '\u25ef'), ("bigcup", '\u22c3'), ("bigodot", '\u2a00'), ("bigoplus", '\u2a01'),
    ("bigotimes", '\u2a02'), ("bigsqcup", '\u2a06'), ("bigstar", '\u2605'),
    ("bigtriangledown", '\u25bd'), ("bigtriangleup", '\u25b3'), ("biguplus", '\u2a04'),
    ("bigvee", '\u22c1'), ("bigwedge", '\u22c0'), ("bkarow", '\u290d'), ("blacklozenge", '\u29eb'),
    ("blacksquare", '\u25aa'), ("blacktriangle", '\u25b4'), ("blacktriangledown", '\u25be'),
    ("blacktriangleleft", '\u25c2'), ("blacktriangleright", '\u25b8'), ("blank", '\u2423'),
    ("blk12", '\u2592'), ("blk14", '\u2591'), ("blk34", '\u2593'), ("block", '\u2588'),
    ("bne", '\u003d'), ("bnequiv", '\u2261'), ("bnot", '\u2310'), ("bopf", '𝕓'), ("bot", '\u22a5'),
    ("bottom", '\u22a5'), ("bowtie", '\u22c8'), ("boxDL", '\u2557'), ("boxDR", '\u2554'),
    ("boxDl", '\u2556'), ("boxDr", '\u2553'), ("boxH", '\u2550'), ("boxHD", '\u2566'),
    ("boxHU", '\u2569'), ("boxHd", '\u2564'), ("boxHu", '\u2567'), ("boxUL", '\u255d'),
    ("boxUR", '\u255a'), ("boxUl", '\u255c'), ("boxUr", '\u2559'), ("boxV", '\u2551'),
    ("boxVH", '\u256c'), ("boxVL", '\u2563'), ("boxVR", '\u2560'), ("boxVh", '\u256b'),
    ("boxVl", '\u2562'), ("boxVr", '\u255f'), ("boxbox", '\u29c9'), ("boxdL", '\u2555'),
    ("boxdR", '\u2552'), ("boxdl", '\u2510'), ("boxdr", '\u250c'), ("boxh", '\u2500'),
    ("boxhD", '\u2565'), ("boxhU", '\u2568'), ("boxhd", '\u252c'), ("boxhu", '\u2534'),
    ("boxminus", '\u229f'), ("boxplus", '\u229e'), ("boxtimes", '\u22a0'), ("boxuL", '\u255b'),
    ("boxuR", '\u2558'), ("boxul", '\u2518'), ("boxur", '\u2514'), ("boxv", '\u2502'),
    ("boxvH", '\u256a'), ("boxvL", '\u2561'), ("boxvR", '\u255e'), ("boxvh", '\u253c'),
    ("boxvl", '\u2524'), ("boxvr", '\u251c'), ("bprime", '\u2035'), ("breve", '\u02d8'),
    ("brvbar", '\u00a6'), ("bscr", '𝒷'), ("bsemi", '\u204f'), ("bsim", '\u223d'),
    ("bsime", '\u22cd'), ("bsol", '\u005c'), ("bsolb", '\u29c5'), ("bsolhsub", '\u27c8'),
    ("bull", '\u2022'), ("bullet", '\u2022'), ("bump", '\u224e'), ("bumpE", '\u2aae'),
    ("bumpe", '\u224f'), ("bumpeq", '\u224f') ]

def lowerC : List (String × Char) :=
  [ ("cacute", '\u0107'), ("cap", '\u2229'), ("capand", '\u2a44'), ("capbrcup", '\u2a49'),
    ("capcap", '\u2a4b'), ("capcup", '\u2a47'), ("capdot", '\u2a40'), ("caps", '\u2229'),
    ("caret", '\u2041'), ("caron", '\u02c7'), ("ccaps", '\u2a4d'), ("ccaron", '\u010d'),
    ("ccedil", '\u00e7'), ("ccirc", '\u0109'), ("ccups", '\u2a4c'), ("ccupssm", '\u2a50'),
    ("cdot", '\u010b'), ("cedil", '\u00b8'), ("cemptyv", '\u29b2'), ("cent", '\u00a2'),
    ("centerdot", '\u00b7'), ("cfr", '𝔠'), ("chcy", '\u0447'), ("check", '\u2713'),
    ("checkmark", '\u2713'), ("chi", '\u03c7'), ("cir", '\u25cb'), ("cirE", '\u29c3'),
    ("circ", '\u02c6'), ("circeq", '\u2257'), ("circlearrowleft", '\u21ba'),
    ("circlearrowright", '\u21bb'), ("circledR", '\u00ae'), ("circledS", '\u24c8'),
    ("circledast", '\u229b'), ("circledcirc", '\u229a'), ("circleddash", '\u229d'),
    ("cire", '\u2257'), ("cirfnint", '\u2a10'), ("cirmid", '\u2aef'), ("cirscir", '\u29c2'),
    ("clubs", '\u2663'), ("clubsuit", '\u2663'), ("colon", '\u003a'), ("colone", '\u2254'),
    ("coloneq", '\u2254'), ("comma", '\u002c'), ("commat", '\u0040'), ("comp", '\u2201'),
    ("compfn", '\u2218'), ("complement", '\u2201'), ("complexes", '\u2102'), ("cong", '\u2245'),
    ("congdot", '\u2a6d'), ("conint", '\u222e'), ("copf", '𝕔'), ("coprod", '\u2210'),
    ("copy", '\u00a9'), ("copysr", '\u2117'), ("crarr", '\u21b5'), ("cross", '\u2717'),
    ("cscr", '𝒸'), ("csub", '\u2acf'), ("csube", '\u2ad1'), ("csup", '\u2ad0'), ("csupe", '\u2ad2'),
    ("ctdot", '\u22ef'), ("cudarrl", '\u2938'), ("cudarrr", '\u2935'), ("cuepr", '\u22de'),
    ("cuesc", '\u22df'), ("cularr", '\u21b6'), ("cularrp", '\u293d'), ("cup", '\u222a'),
    ("cupbrcap", '\u2a48'), ("cupcap", '\u2a46'), ("cupcup", '\u2a4a'), ("cupdot", '\u228d'),
    ("cupor", '\u2a45'), ("cups", '\u222a'), ("curarr", '\u21b7'), ("curarrm", '\u293c'),
    ("curlyeqprec", '\u22de'), ("curlyeqsucc", '\u22df'), ("curlyvee", '\u22ce'),
    ("curlywedge", '\u22cf'), ("curren", '\u00a4'), ("curvearrowleft", '\u21b6'),
    ("curvearrowright", '\u21b7'), ("cuvee", '\u22ce'), ("cuwed", '\u22cf'), ("cwconint", '\u2232'),
    ("cwint", '\u2231'), ("cylcty", '\u232d') ]

def lowerD : List (String × Char) :=
  [ ("dArr", '\u21d3'), ("dHar", '\u2965'), ("dagger", '\u2020'), ("daleth", '\u2138'),
    ("darr", '\u2193'), ("dash", '\u2010'), ("dashv", '\u22a3'), ("dbkarow", '\u290f'),
    ("dblac", '\u02dd'), ("dcaron", '\u010f'), ("dcy", '\u0434'), ("dd", '\u2146'),
    ("ddagger", '\u2021'), ("ddarr", '\u21ca'), ("ddotseq", '\u2a77'), ("deg", '\u00b0'),
    ("delta", '\u03b4'), ("demptyv", '\u29b1'), ("dfisht", '\u297f'), ("dfr", '𝔡'),
    ("dharl", '\u21c3'), ("dharr", '\u21c2'), ("diam", '\u22c4'), ("diamond", '\u22c4'),
    ("diamondsuit", '\u2666'), ("diams", '\u2666'), ("die", '\u00a8'), ("digamma", '\u03dd'),
    ("disin", '\u22f2'), ("div", '\u00f7'), ("divide", '\u00f7'), ("divideontimes", '\u22c7'),
    ("divonx", '\u22c7'), ("djcy", '\u0452'), ("dlcorn", '\u231e'), ("dlcrop", '\u230d'),
    ("dollar", '\u0024'), ("dopf", '𝕕'), ("dot", '\u02d9'), ("doteq", '\u2250'),
    ("doteqdot", '\u2251'), ("dotminus", '\u2238'), ("dotplus", '\u2214'), ("dotsquare", '\u22a1'),
    ("doublebarwedge", '\u2306'), ("downarrow", '\u2193'), ("downdownarrows", '\u21ca'),
    ("downharpoonleft", '\u21c3'), ("downharpoonright", '\u21c2'), ("drbkarow", '\u2910'),
    ("drcorn", '\u231f'), ("drcrop", '\u230c'), ("dscr", '𝒹'), ("dscy", '\u0455'),
    ("dsol", '\u29f6'), ("dstrok", '\u0111'), ("dtdot", '\u22f1'), ("dtri", '\u25bf'),
    ("dtrif", '\u25be'), ("duarr", '\u21f5'), ("duhar", '\u296f'), ("dwangle", '\u29a6'),
    ("dzcy", '\u045f'), ("dzigrarr", '\u27ff') ]

def lowerE : List (String × Char) :=
  [ ("eDDot", '\u2a77'), ("eDot", '\u2251'), ("eacute", '\u00e9'), ("easter", '\u2a6e'),
    ("ecaron", '\u011b'), ("ecir", '\u2256'), ("ecirc", '\u00ea'), ("ecolon", '\u2255'),
    ("ecy", '\u044d'), ("edot", '\u0117'), ("ee", '\u2147'), ("efDot", '\u2252'), ("efr", '𝔢'),
    ("eg", '\u2a9a'), ("egrave", '\u00e8'), ("egs", '\u2a96'), ("egsdot", '\u2a98'),
    ("el", '\u2a99'), ("elinters", '\u23e7'), ("ell", '\u2113'), ("els", '\u2a95'),
    ("elsdot", '\u2a97'), ("emacr", '\u0113'), ("empty", '\u2205'), ("emptyset", '\u2205'),
    ("emptyv", '\u2205'), ("emsp", '\u2003'), ("emsp13", '\u2004'), ("emsp14", '\u2005'),
    ("eng", '\u014b'), ("ensp", '\u2002'), ("eogon", '\u0119'), ("eopf", '𝕖'), ("epar", '\u22d5'),
    ("eparsl", '\u29e3'), ("eplus", '\u2a71'), ("epsi", '\u03b5'), ("epsilon", '\u03b5'),
    ("epsiv", '\u03f5'), ("eqcirc", '\u2256'), ("eqcolon", '\u2255'), ("eqsim", '\u2242'),
    ("eqslantgtr", '\u2a96'), ("eqslantless", '\u2a95'), ("equals", '\u003d'), ("equest", '\u225f'),
    ("equiv", '\u2261'), ("equivDD", '\u2a78'), ("eqvparsl", '\u29e5'), ("erDot", '\u2253'),
    ("erarr", '\u2971'), ("escr", '\u212f'), ("esdot", '\u2250'), ("esim", '\u2242'),
    ("eta", '\u03b7'), ("eth", '\u00f0'), ("euml", '\u00eb'), ("euro", '\u20ac'),
    ("excl", '\u0021'), ("exist", '\u2203'), ("expectation", '\u2130'), ("exponentiale", '\u2147') ]

def lowerF : List (String × Char) :=
  [ ("fallingdotseq", '\u2252'), ("fcy", '\u0444'), ("female", '\u2640'), ("ffilig", '\ufb03'),
    ("fflig", '\ufb00'), ("ffllig", '\ufb04'), ("ffr", '𝔣'), ("filig", '\ufb01'),
    ("fjlig", '\u0066'), ("flat", '\u266d'), ("fllig", '\ufb02'), ("fltns", '\u25b1'),
    ("fnof", '\u0192'), ("fopf", '𝕗'), ("forall", '\u2200'), ("fork", '\u22d4'),
    ("forkv", '\u2ad9'), ("fpartint", '\u2a0d'), ("frac12", '\u00bd'), ("frac13", '\u2153'),
    ("frac14", '\u00bc'), ("frac15", '\u2155'), ("frac16", '\u2159'), ("frac18", '\u215b'),
    ("frac23", '\u2154'), ("frac25", '\u2156'), ("frac34", '\u00be'), ("frac35", '\u2157'),
    ("frac38", '\u215c'), ("frac45", '\u2158'), ("frac56", '\u215a'), ("frac58", '\u215d'),
    ("frac78", '\u215e'), ("frasl", '\u2044'), ("frown", '\u2322'), ("fscr", '𝒻') ]

def lowerG : List (String × Char) :=
  [ ("gE", '\u2267'), ("gEl", '\u2a8c'), ("gacute", '\u01f5'), ("gamma", '\u03b3'),
    ("gammad", '\u03dd'), ("gap", '\u2a86'), ("gbreve", '\u011f'), ("gcirc", '\u011d'),
    ("gcy", '\u0433'), ("gdot", '\u0121'), ("ge", '\u2265'), ("gel", '\u22db'), ("geq", '\u2265'),
    ("geqq", '\u2267'), ("geqslant", '\u2a7e'), ("ges", '\u2a7e'), ("gescc", '\u2aa9'),
    ("gesdot", '\u2a80'), ("gesdoto", '\u2a82'), ("gesdotol", '\u2a84'), ("gesl", '\u22db'),
    ("gesles", '\u2a94'), ("gfr", '𝔤'), ("gg", '\u226b'), ("ggg", '\u22d9'), ("gimel", '\u2137'),
    ("gjcy", '\u0453'), ("gl", '\u2277'), ("glE", '\u2a92'), ("gla", '\u2aa5'), ("glj", '\u2aa4'),
    ("gnE", '\u2269'), ("gnap", '\u2a8a'), ("gnapprox", '\u2a8a'), ("gne", '\u2a88'),
    ("gneq", '\u2a88'), ("gneqq", '\u2269'), ("gnsim", '\u22e7'), ("gopf", '𝕘'),
    ("grave", '\u0060'), ("gscr", '\u210a'), ("gsim", '\u2273'), ("gsime", '\u2a8e'),
    ("gsiml", '\u2a90'), ("gt", '\u003e'), ("gtcc", '\u2aa7'), ("gtcir", '\u2a7a'),
    ("gtdot", '\u22d7'), ("gtlPar", '\u2995'), ("gtquest", '\u2a7c'), ("gtrapprox", '\u2a86'),
    ("gtrarr", '\u2978'), ("gtrdot", '\u22d7'), ("gtreqless", '\u22db'), ("gtreqqless", '\u2a8c'),
    ("gtrless", '\u2277'), ("gtrsim", '\u2273'), ("gvertneqq", '\u2269'), ("gvnE", '\u2269') ]

def lowerH : List (String × Char) :=
  [ ("hArr", '\u21d4'), ("hairsp", '\u200a'), ("half", '\u00bd'), ("hamilt", '\u210b'),
    ("hardcy", '\u044a'), ("harr", '\u2194'), ("harrcir", '\u2948'), ("harrw", '\u21ad'),
    ("hbar", '\u210f'), ("hcirc", '\u0125'), ("hearts", '\u2665'), ("heartsuit", '\u2665'),
    ("hellip", '\u2026'), ("hercon", '\u22b9'), ("hfr", '𝔥'), ("hksearow", '\u2925'),
    ("hkswarow", '\u2926'), ("hoarr", '\u21ff'), ("homtht", '\u223b'), ("hookleftarrow", '\u21a9'),
    ("hookrightarrow", '\u21aa'), ("hopf", '𝕙'), ("horbar", '\u2015'), ("hscr", '𝒽'),
    ("hslash", '\u210f'), ("hstrok", '\u0127'), ("hybull", '\u2043'), ("hyphen", '\u2010') ]

def lowerI : List (String × Char) :=
  [ ("iacute", '\u00ed'), ("ic", '\u2063'), ("icirc", '\u00ee'), ("icy", '\u0438'),
    ("iecy", '\u0435'), ("iexcl", '\u00a1'), ("iff", '\u21d4'), ("ifr", '𝔦'), ("igrave", '\u00ec'),
    ("ii", '\u2148'), ("iiiint", '\u2a0c'), ("iiint", '\u222d'), ("iinfin", '\u29dc'),
    ("iiota", '\u2129'), ("ijlig", '\u0133'), ("imacr", '\u012b'), ("image", '\u2111'),
    ("imagline", '\u2110'), ("imagpart", '\u2111'), ("imath", '\u0131'), ("imof", '\u22b7'),
    ("imped", '\u01b5'), ("in", '\u2208'), ("incare", '\u2105'), ("infin", '\u221e'),
    ("infintie", '\u29dd'), ("inodot", '\u0131'), ("int", '\u222b'), ("intcal", '\u22ba'),
    ("integers", '\u2124'), ("intercal", '\u22ba'), ("intlarhk", '\u2a17'), ("intprod", '\u2a3c'),
    ("iocy", '\u0451'), ("iogon", '\u012f'), ("iopf", '𝕚'), ("iota", '\u03b9'), ("iprod", '\u2a3c'),
    ("iquest", '\u00bf'), ("iscr", '𝒾'), ("isin", '\u2208'), ("isinE", '\u22f9'),
    ("isindot", '\u22f5'), ("isins", '\u22f4'), ("isinsv", '\u22f3'), ("isinv", '\u2208'),
    ("it", '\u2062'), ("itilde", '\u0129'), ("iukcy", '\u0456'), ("iuml", '\u00ef') ]

def lowerJ : List (String × Char) :=
  [ ("jcirc", '\u0135'), ("jcy", '\u0439'), ("jfr", '𝔧'), ("jmath", '\u0237'), ("jopf", '𝕛'),
    ("jscr", '𝒿'), ("jsercy", '\u0458'), ("jukcy", '\u0454') ]

def lowerK : List (String × Char) :=
  [ ("kappa", '\u03ba'), ("kappav", '\u03f0'), ("kcedil", '\u0137'), ("kcy", '\u043a'),
    ("kfr", '𝔨'), ("kgreen", '\u0138'), ("khcy", '\u0445'), ("kjcy", '\u045c'), ("kopf", '𝕜'),
    ("kscr", '𝓀') ]

def lowerL : List (String × Char) :=
  [ ("lAarr", '\u21da'), ("lArr", '\u21d0'), ("lAtail", '\u291b'), ("lBarr", '\u290e'),
    ("lE", '\u2266'), ("lEg", '\u2a8b'), ("lHar", '\u2962'), ("lacute", '\u013a'),
    ("laemptyv", '\u29b4'), ("lagran", '\u2112'), ("lambda", '\u03bb'), ("lang", '\u27e8'),
    ("langd", '\u2991'), ("langle", '\u27e8'), ("lap", '\u2a85'), ("laquo", '\u00ab'),
    ("larr", '\u2190'), ("larrb", '\u21e4'), ("larrbfs", '\u291f'), ("larrfs", '\u291d'),
    ("larrhk", '\u21a9'), ("larrlp", '\u21ab'), ("larrpl", '\u2939'), ("larrsim", '\u2973'),
    ("larrtl", '\u21a2'), ("lat", '\u2aab'), ("latail", '\u2919'), ("late", '\u2aad'),
    ("lates", '\u2aad'), ("lbarr", '\u290c'), ("lbbrk", '\u2772'), ("lbrace", '\u007b'),
    ("lbrack", '\u005b'), ("lbrke", '\u298b'), ("lbrksld", '\u298f'), ("lbrkslu", '\u298d'),
    ("lcaron", '\u013e'), ("lcedil", '\u013c'), ("lceil", '\u2308'), ("lcub", '\u007b'),
    ("lcy", '\u043b'), ("ldca", '\u2936'), ("ldquo", '\u201c'), ("ldquor", '\u201e'),
    ("ldrdhar", '\u2967'), ("ldrushar", '\u294b'), ("ldsh", '\u21b2'), ("le", '\u2264'),
    ("leftarrow", '\u2190'), ("leftarrowtail", '\u21a2'), ("leftharpoondown", '\u21bd'),
    ("leftharpoonup", '\u21bc'), ("leftleftarrows", '\u21c7'), ("leftrightarrow", '\u2194'),
    ("leftrightarrows", '\u21c6'), ("leftrightharpoons", '\u21cb'),
    ("leftrightsquigarrow", '\u21ad'), ("leftthreetimes", '\u22cb'), ("leg", '\u22da'),
    ("leq", '\u2264'), ("leqq", '\u2266'), ("leqslant", '\u2a7d'), ("les", '\u2a7d'),
    ("lescc", '\u2aa8'), ("lesdot", '\u2a7f'), ("lesdoto", '\u2a81'), ("lesdotor", '\u2a83'),
    ("lesg", '\u22da'), ("lesges", '\u2a93'), ("lessapprox", '\u2a85'), ("lessdot", '\u22d6'),
    ("lesseqgtr", '\u22da'), ("lesseqqgtr", '\u2a8b'), ("lessgtr", '\u2276'), ("lesssim", '\u2272'),
    ("lfisht", '\u297c'), ("lfloor", '\u230a'), ("lfr", '𝔩'), ("lg", '\u2276'), ("lgE", '\u2a91'),
    ("lhard", '\u21bd'), ("lharu", '\u21bc'), ("lharul", '\u296a'), ("lhblk", '\u2584'),
    ("ljcy", '\u0459'), ("ll", '\u226a'), ("llarr", '\u21c7'), ("llcorner", '\u231e'),
    ("llhard", '\u296b'), ("lltri", '\u25fa'), ("lmidot", '\u0140'), ("lmoust", '\u23b0'),
    ("lmoustache", '\u23b0'), ("lnE", '\u2268'), ("lnap", '\u2a89'), ("lnapprox", '\u2a89'),
    ("lne", '\u2a87'), ("lneq", '\u2a87'), ("lneqq", '\u2268'), ("lnsim", '\u22e6'),
    ("loang", '\u27ec'), ("loarr", '\u21fd'), ("lobrk", '\u27e6'), ("longleftarrow", '\u27f5'),
    ("longleftrightarrow", '\u27f7'), ("longmapsto", '\u27fc'), ("longrightarrow", '\u27f6'),
    ("looparrowleft", '\u21ab'), ("looparrowright", '\u21ac'), ("lopar", '\u2985'), ("lopf", '𝕝'),
    ("loplus", '\u2a2d'), ("lotimes", '\u2a34'), ("lowast", '\u2217'), ("lowbar", '\u005f'),
    ("loz", '\u25ca'), ("lozenge", '\u25ca'), ("lozf", '\u29eb'), ("lpar", '\u0028'),
    ("lparlt", '\u2993'), ("lrarr", '\u21c6'), ("lrcorner", '\u231f'), ("lrhar", '\u21cb'),
    ("lrhard", '\u296d'), ("lrm", '\u200e'), ("lrtri", '\u22bf'), ("lsaquo", '\u2039'),
    ("lscr", '𝓁'), ("lsh", '\u21b0'), ("lsim", '\u2272'), ("lsime", '\u2a8d'), ("lsimg", '\u2a8f'),
    ("lsqb", '\u005b'), ("lsquo", '\u2018'), ("lsquor", '\u201a'), ("lstrok", '\u0142'),
    ("lt", '\u003c'), ("ltcc", '\u2aa6'), ("ltcir", '\u2a79'), ("ltdot", '\u22d6'),
    ("lthree", '\u22cb'), ("ltimes", '\u22c9'), ("ltlarr", '\u2976'), ("ltquest", '\u2a7b'),
    ("ltrPar", '\u2996'), ("ltri", '\u25c3'), ("ltrie", '\u22b4'), ("ltrif", '\u25c2'),
    ("lurdshar", '\u294a'), ("luruhar", '\u2966'), ("lvertneqq", '\u2268'), ("lvnE", '\u2268') ]

def lowerM : List (String × Char) :=
  [ ("mDDot", '\u223a'), ("macr", '\u00af'), ("male", '\u2642'), ("malt", '\u2720'),
    ("maltese", '\u2720'), ("map", '\u21a6'), ("mapsto", '\u21a6'), ("mapstodown", '\u21a7'),
    ("mapstoleft", '\u21a4'), ("mapstoup", '\u21a5'), ("marker", '\u25ae'), ("mcomma", '\u2a29'),
    ("mcy", '\u043c'), ("mdash", '\u2014'), ("measuredangle", '\u2221'), ("mfr", '𝔪'),
    ("mho", '\u2127'), ("micro", '\u00b5'), ("mid", '\u2223'), ("midast", '\u002a'),
    ("midcir", '\u2af0'), ("middot", '\u00b7'), ("minus", '\u2212'), ("minusb", '\u229f'),
    ("minusd", '\u2238'), ("minusdu", '\u2a2a'), ("mlcp", '\u2adb'), ("mldr", '\u2026'),
    ("mnplus", '\u2213'), ("models", '\u22a7'), ("mopf", '𝕞'), ("mp", '\u2213'), ("mscr", '𝓂'),
    ("mstpos", '\u223e'), ("mu", '\u03bc'), ("multimap", '\u22b8'), ("mumap", '\u22b8') ]

end ForumMarkup.Entity
