/-!
Contract: the named character references of HTML whose names start with one of the letters from n to z.

Owns: one table for each initial, in the order of the names; a name is listed
without its ampersand and semicolon, next to the character it stands for.

Where HTML gives a name two characters, the table has the first one only.
-/

set_option autoImplicit false

namespace ForumMarkup.Entity

def lowerN : List (String × Char) :=
  [ ("nGg", '\u22d9'), ("nGt", '\u226b'), ("nGtv", '\u226b'), ("nLeftarrow", '\u21cd'),
    ("nLeftrightarrow", '\u21ce'), ("nLl", '\u22d8'), ("nLt", '\u226a'), ("nLtv", '\u226a'),
    ("nRightarrow", '\u21cf'), ("nVDash", '\u22af'), ("nVdash", '\u22ae'), ("nabla", '\u2207'),
    ("nacute", '\u0144'), ("nang", '\u2220'), ("nap", '\u2249'), ("napE", '\u2a70'),
    ("napid", '\u224b'), ("napos", '\u0149'), ("napprox", '\u2249'), ("natur", '\u266e'),
    ("natural", '\u266e'), ("naturals", '\u2115'), ("nbsp", '\u00a0'), ("nbump", '\u224e'),
    ("nbumpe", '\u224f'), ("ncap", '\u2a43'), ("ncaron", '\u0148'), ("ncedil", '\u0146'),
    ("ncong", '\u2247'), ("ncongdot", '\u2a6d'), ("ncup", '\u2a42'), ("ncy", '\u043d'),
    ("ndash", '\u2013'), ("ne", '\u2260'), ("neArr", '\u21d7'), ("nearhk", '\u2924'),
    ("nearr", '\u2197'), ("nearrow", '\u2197'), ("nedot", '\u2250'), ("nequiv", '\u2262'),
    ("nesear", '\u2928'), ("nesim", '\u2242'), ("nexist", '\u2204'), ("nexists", '\u2204'),
    ("nfr", '𝔫'), ("ngE", '\u2267'), ("nge", '\u2271'), ("ngeq", '\u2271'), ("ngeqq", '\u2267'),
    ("ngeqslant", '\u2a7e'), ("nges", '\u2a7e'), ("ngsim", '\u2275'), ("ngt", '\u226f'),
    ("ngtr", '\u226f'), ("nhArr", '\u21ce'), ("nharr", '\u21ae'), ("nhpar", '\u2af2'),
    ("ni", '\u220b'), ("nis", '\u22fc'), ("nisd", '\u22fa'), ("niv", '\u220b'), ("njcy", '\u045a'),
    ("nlArr", '\u21cd'), ("nlE", '\u2266'), ("nlarr", '\u219a'), ("nldr", '\u2025'),
    ("nle", '\u2270'), ("nleftarrow", '\u219a'), ("nleftrightarrow", '\u21ae'), ("nleq", '\u2270'),
    ("nleqq", '\u2266'), ("nleqslant", '\u2a7d'), ("nles", '\u2a7d'), ("nless", '\u226e'),
    ("nlsim", '\u2274'), ("nlt", '\u226e'), ("nltri", '\u22ea'), ("nltrie", '\u22ec'),
    ("nmid", '\u2224'), ("nopf", '𝕟'), ("not", '\u00ac'), ("notin", '\u2209'), ("notinE", '\u22f9'),
    ("notindot", '\u22f5'), ("notinva", '\u2209'), ("notinvb", '\u22f7'), ("notinvc", '\u22f6'),
    ("notni", '\u220c'), ("notniva", '\u220c'), ("notnivb", '\u22fe'), ("notnivc", '\u22fd'),
    ("npar", '\u2226'), ("nparallel", '\u2226'), ("nparsl", '\u2afd'), ("npart", '\u2202'),
    ("npolint", '\u2a14'), ("npr", '\u2280'), ("nprcue", '\u22e0'), ("npre", '\u2aaf'),
    ("nprec", '\u2280'), ("npreceq", '\u2aaf'), ("nrArr", '\u21cf'), ("nrarr", '\u219b'),
    ("nrarrc", '\u2933'), ("nrarrw", '\u219d'), ("nrightarrow", '\u219b'), ("nrtri", '\u22eb'),
    ("nrtrie", '\u22ed'), ("nsc", '\u2281'), ("nsccue", '\u22e1'), ("nsce", '\u2ab0'),
    ("nscr", '𝓃'), ("nshortmid", '\u2224'), ("nshortparallel", '\u2226'), ("nsim", '\u2241'),
    ("nsime", '\u2244'), ("nsimeq", '\u2244'), ("nsmid", '\u2224'), ("nspar", '\u2226'),
    ("nsqsube", '\u22e2'), ("nsqsupe", '\u22e3'), ("nsub", '\u2284'), ("nsubE", '\u2ac5'),
    ("nsube", '\u2288'), ("nsubset", '\u2282'), ("nsubseteq", '\u2288'), ("nsubseteqq", '\u2ac5'),
    ("nsucc", '\u2281'), ("nsucceq", '\u2ab0'), ("nsup", '\u2285'), ("nsupE", '\u2ac6'),
    ("nsupe", '\u2289'), ("nsupset", '\u2283'), ("nsupseteq", '\u2289'), ("nsupseteqq", '\u2ac6'),
    ("ntgl", '\u2279'), ("ntilde", '\u00f1'), ("ntlg", '\u2278'), ("ntriangleleft", '\u22ea'),
    ("ntrianglelefteq", '\u22ec'), ("ntriangleright", '\u22eb'), ("ntrianglerighteq", '\u22ed'),
    ("nu", '\u03bd'), ("num", '\u0023'), ("numero", '\u2116'), ("numsp", '\u2007'),
    ("nvDash", '\u22ad'), ("nvHarr", '\u2904'), ("nvap", '\u224d'), ("nvdash", '\u22ac'),
    ("nvge", '\u2265'), ("nvgt", '\u003e'), ("nvinfin", '\u29de'), ("nvlArr", '\u2902'),
    ("nvle", '\u2264'), ("nvlt", '\u003c'), ("nvltrie", '\u22b4'), ("nvrArr", '\u2903'),
    ("nvrtrie", '\u22b5'), ("nvsim", '\u223c'), ("nwArr", '\u21d6'), ("nwarhk", '\u2923'),
    ("nwarr", '\u2196'), ("nwarrow", '\u2196'), ("nwnear", '\u2927') ]

def lowerO : List (String × Char) :=
  [ ("oS", '\u24c8'), ("oacute", '\u00f3'), ("oast", '\u229b'), ("ocir", '\u229a'),
    ("ocirc", '\u00f4'), ("ocy", '\u043e'), ("odash", '\u229d'), ("odblac", '\u0151'),
    ("odiv", '\u2a38'), ("odot", '\u2299'), ("odsold", '\u29bc'), ("oelig", '\u0153'),
    ("ofcir", '\u29bf'), ("ofr", '𝔬'), ("ogon", '\u02db'), ("ograve", '\u00f2'), ("ogt", '\u29c1'),
    ("ohbar", '\u29b5'), ("ohm", '\u03a9'), ("oint", '\u222e'), ("olarr", '\u21ba'),
    ("olcir", '\u29be'), ("olcross", '\u29bb'), ("oline", '\u203e'), ("olt", '\u29c0'),
    ("omacr", '\u014d'), ("omega", '\u03c9'), ("omicron", '\u03bf'), ("omid", '\u29b6'),
    ("ominus", '\u2296'), ("oopf", '𝕠'), ("opar", '\u29b7'), ("operp", '\u29b9'),
    ("oplus", '\u2295'), ("or", '\u2228'), ("orarr", '\u21bb'), ("ord", '\u2a5d'),
    ("order", '\u2134'), ("orderof", '\u2134'), ("ordf", '\u00aa'), ("ordm", '\u00ba'),
    ("origof", '\u22b6'), ("oror", '\u2a56'), ("orslope", '\u2a57'), ("orv", '\u2a5b'),
    ("oscr", '\u2134'), ("oslash", '\u00f8'), ("osol", '\u2298'), ("otilde", '\u00f5'),
    ("otimes", '\u2297'), ("otimesas", '\u2a36'), ("ouml", '\u00f6'), ("ovbar", '\u233d') ]

def lowerP : List (String × Char) :=
  [ ("par", '\u2225'), ("para", '\u00b6'), ("parallel", '\u2225'), ("parsim", '\u2af3'),
    ("parsl", '\u2afd'), ("part", '\u2202'), ("pcy", '\u043f'), ("percnt", '\u0025'),
    ("period", '\u002e'), ("permil", '\u2030'), ("perp", '\u22a5'), ("pertenk", '\u2031'),
    ("pfr", '𝔭'), ("phi", '\u03c6'), ("phiv", '\u03d5'), ("phmmat", '\u2133'), ("phone", '\u260e'),
    ("pi", '\u03c0'), ("pitchfork", '\u22d4'), ("piv", '\u03d6'), ("planck", '\u210f'),
    ("planckh", '\u210e'), ("plankv", '\u210f'), ("plus", '\u002b'), ("plusacir", '\u2a23'),
    ("plusb", '\u229e'), ("pluscir", '\u2a22'), ("plusdo", '\u2214'), ("plusdu", '\u2a25'),
    ("pluse", '\u2a72'), ("plusmn", '\u00b1'), ("plussim", '\u2a26'), ("plustwo", '\u2a27'),
    ("pm", '\u00b1'), ("pointint", '\u2a15'), ("popf", '𝕡'), ("pound", '\u00a3'), ("pr", '\u227a'),
    ("prE", '\u2ab3'), ("prap", '\u2ab7'), ("prcue", '\u227c'), ("pre", '\u2aaf'),
    ("prec", '\u227a'), ("precapprox", '\u2ab7'), ("preccurlyeq", '\u227c'), ("preceq", '\u2aaf'),
    ("precnapprox", '\u2ab9'), ("precneqq", '\u2ab5'), ("precnsim", '\u22e8'),
    ("precsim", '\u227e'), ("prime", '\u2032'), ("primes", '\u2119'), ("prnE", '\u2ab5'),
    ("prnap", '\u2ab9'), ("prnsim", '\u22e8'), ("prod", '\u220f'), ("profalar", '\u232e'),
    ("profline", '\u2312'), ("profsurf", '\u2313'), ("prop", '\u221d'), ("propto", '\u221d'),
    ("prsim", '\u227e'), ("prurel", '\u22b0'), ("pscr", '𝓅'), ("psi", '\u03c8'),
    ("puncsp", '\u2008') ]

def lowerQ : List (String × Char) :=
  [ ("qfr", '𝔮'), ("qint", '\u2a0c'), ("qopf", '𝕢'), ("qprime", '\u2057'), ("qscr", '𝓆'),
    ("quaternions", '\u210d'), ("quatint", '\u2a16'), ("quest", '\u003f'), ("questeq", '\u225f'),
    ("quot", '\u0022') ]

def lowerR : List (String × Char) :=
  [ ("rAarr", '\u21db'), ("rArr", '\u21d2'), ("rAtail", '\u291c'), ("rBarr", '\u290f'),
    ("rHar", '\u2964'), ("race", '\u223d'), ("racute", '\u0155'), ("radic", '\u221a'),
    ("raemptyv", '\u29b3'), ("rang", '\u27e9'), ("rangd", '\u2992'), ("range", '\u29a5'),
    ("rangle", '\u27e9'), ("raquo", '\u00bb'), ("rarr", '\u2192'), ("rarrap", '\u2975'),
    ("rarrb", '\u21e5'), ("rarrbfs", '\u2920'), ("rarrc", '\u2933'), ("rarrfs", '\u291e'),
    ("rarrhk", '\u21aa'), ("rarrlp", '\u21ac'), ("rarrpl", '\u2945'), ("rarrsim", '\u2974'),
    ("rarrtl", '\u21a3'), ("rarrw", '\u219d'), ("ratail", '\u291a'), ("ratio", '\u2236'),
    ("rationals", '\u211a'), ("rbarr", '\u290d'), ("rbbrk", '\u2773'), ("rbrace", '\u007d'),
    ("rbrack", '\u005d'), ("rbrke", '\u298c'), ("rbrksld", '\u298e'), ("rbrkslu", '\u2990'),
    ("rcaron", '\u0159'), ("rcedil", '\u0157'), ("rceil", '\u2309'), ("rcub", '\u007d'),
    ("rcy", '\u0440'), ("rdca", '\u2937'), ("rdldhar", '\u2969'), ("rdquo", '\u201d'),
    ("rdquor", '\u201d'), ("rdsh", '\u21b3'), ("real", '\u211c'), ("realine", '\u211b'),
    ("realpart", '\u211c'), ("reals", '\u211d'), ("rect", '\u25ad'), ("reg", '\u00ae'),
    ("rfisht", '\u297d'), ("rfloor", '\u230b'), ("rfr", '𝔯'), ("rhard", '\u21c1'),
    ("rharu", '\u21c0'), ("rharul", '\u296c'), ("rho", '\u03c1'), ("rhov", '\u03f1'),
    ("rightarrow", '\u2192'), ("rightarrowtail", '\u21a3'), ("rightharpoondown", '\u21c1'),
    ("rightharpoonup", '\u21c0'), ("rightleftarrows", '\u21c4'), ("rightleftharpoons", '\u21cc'),
    ("rightrightarrows", '\u21c9'), ("rightsquigarrow", '\u219d'), ("rightthreetimes", '\u22cc'),
    ("ring", '\u02da'), ("risingdotseq", '\u2253'), ("rlarr", '\u21c4'), ("rlhar", '\u21cc'),
    ("rlm", '\u200f'), ("rmoust", '\u23b1'), ("rmoustache", '\u23b1'), ("rnmid", '\u2aee'),
    ("roang", '\u27ed'), ("roarr", '\u21fe'), ("robrk", '\u27e7'), ("ropar", '\u2986'),
    ("ropf", '𝕣'), ("roplus", '\u2a2e'), ("rotimes", '\u2a35'), ("rpar", '\u0029'),
    ("rpargt", '\u2994'), ("rppolint", '\u2a12'), ("rrarr", '\u21c9'), ("rsaquo", '\u203a'),
    ("rscr", '𝓇'), ("rsh", '\u21b1'), ("rsqb", '\u005d'), ("rsquo", '\u2019'), ("rsquor", '\u2019'),
    ("rthree", '\u22cc'), ("rtimes", '\u22ca'), ("rtri", '\u25b9'), ("rtrie", '\u22b5'),
    ("rtrif", '\u25b8'), ("rtriltri", '\u29ce'), ("ruluhar", '\u2968'), ("rx", '\u211e') ]

def lowerS : List (String × Char) :=
  [ ("sacute", '\u015b'), ("sbquo", '\u201a'), ("sc", '\u227b'), ("scE", '\u2ab4'),
    ("scap", '\u2ab8'), ("scaron", '\u0161'), ("sccue", '\u227d'), ("sce", '\u2ab0'),
    ("scedil", '\u015f'), ("scirc", '\u015d'), ("scnE", '\u2ab6'), ("scnap", '\u2aba'),
    ("scnsim", '\u22e9'), ("scpolint", '\u2a13'), ("scsim", '\u227f'), ("scy", '\u0441'),
    ("sdot", '\u22c5'), ("sdotb", '\u22a1'), ("sdote", '\u2a66'), ("seArr", '\u21d8'),
    ("searhk", '\u2925'), ("searr", '\u2198'), ("searrow", '\u2198'), ("sect", '\u00a7'),
    ("semi", '\u003b'), ("seswar", '\u2929'), ("setminus", '\u2216'), ("setmn", '\u2216'),
    ("sext", '\u2736'), ("sfr", '𝔰'), ("sfrown", '\u2322'), ("sharp", '\u266f'),
    ("shchcy", '\u0449'), ("shcy", '\u0448'), ("shortmid", '\u2223'), ("shortparallel", '\u2225'),
    ("shy", '\u00ad'), ("sigma", '\u03c3'), ("sigmaf", '\u03c2'), ("sigmav", '\u03c2'),
    ("sim", '\u223c'), ("simdot", '\u2a6a'), ("sime", '\u2243'), ("simeq", '\u2243'),
    ("simg", '\u2a9e'), ("simgE", '\u2aa0'), ("siml", '\u2a9d'), ("simlE", '\u2a9f'),
    ("simne", '\u2246'), ("simplus", '\u2a24'), ("simrarr", '\u2972'), ("slarr", '\u2190'),
    ("smallsetminus", '\u2216'), ("smashp", '\u2a33'), ("smeparsl", '\u29e4'), ("smid", '\u2223'),
    ("smile", '\u2323'), ("smt", '\u2aaa'), ("smte", '\u2aac'), ("smtes", '\u2aac'),
    ("softcy", '\u044c'), ("sol", '\u002f'), ("solb", '\u29c4'), ("solbar", '\u233f'),
    ("sopf", '𝕤'), ("spades", '\u2660'), ("spadesuit", '\u2660'), ("spar", '\u2225'),
    ("sqcap", '\u2293'), ("sqcaps", '\u2293'), ("sqcup", '\u2294'), ("sqcups", '\u2294'),
    ("sqsub", '\u228f'), ("sqsube", '\u2291'), ("sqsubset", '\u228f'), ("sqsubseteq", '\u2291'),
    ("sqsup", '\u2290'), ("sqsupe", '\u2292'), ("sqsupset", '\u2290'), ("sqsupseteq", '\u2292'),
    ("squ", '\u25a1'), ("square", '\u25a1'), ("squarf", '\u25aa'), ("squf", '\u25aa'),
    ("srarr", '\u2192'), ("sscr", '𝓈'), ("ssetmn", '\u2216'), ("ssmile", '\u2323'),
    ("sstarf", '\u22c6'), ("star", '\u2606'), ("starf", '\u2605'), ("straightepsilon", '\u03f5'),
    ("straightphi", '\u03d5'), ("strns", '\u00af'), ("sub", '\u2282'), ("subE", '\u2ac5'),
    ("subdot", '\u2abd'), ("sube", '\u2286'), ("subedot", '\u2ac3'), ("submult", '\u2ac1'),
    ("subnE", '\u2acb'), ("subne", '\u228a'), ("subplus", '\u2abf'), ("subrarr", '\u2979'),
    ("subset", '\u2282'), ("subseteq", '\u2286'), ("subseteqq", '\u2ac5'), ("subsetneq", '\u228a'),
    ("subsetneqq", '\u2acb'), ("subsim", '\u2ac7'), ("subsub", '\u2ad5'), ("subsup", '\u2ad3'),
    ("succ", '\u227b'), ("succapprox", '\u2ab8'), ("succcurlyeq", '\u227d'), ("succeq", '\u2ab0'),
    ("succnapprox", '\u2aba'), ("succneqq", '\u2ab6'), ("succnsim", '\u22e9'),
    ("succsim", '\u227f'), ("sum", '\u2211'), ("sung", '\u266a'), ("sup", '\u2283'),
    ("sup1", '\u00b9'), ("sup2", '\u00b2'), ("sup3", '\u00b3'), ("supE", '\u2ac6'),
    ("supdot", '\u2abe'), ("supdsub", '\u2ad8'), ("supe", '\u2287'), ("supedot", '\u2ac4'),
    ("suphsol", '\u27c9'), ("suphsub", '\u2ad7'), ("suplarr", '\u297b'), ("supmult", '\u2ac2'),
    ("supnE", '\u2acc'), ("supne", '\u228b'), ("supplus", '\u2ac0'), ("supset", '\u2283'),
    ("supseteq", '\u2287'), ("supseteqq", '\u2ac6'), ("supsetneq", '\u228b'),
    ("supsetneqq", '\u2acc'), ("supsim", '\u2ac8'), ("supsub", '\u2ad4'), ("supsup", '\u2ad6'),
    ("swArr", '\u21d9'), ("swarhk", '\u2926'), ("swarr", '\u2199'), ("swarrow", '\u2199'),
    ("swnwar", '\u292a'), ("szlig", '\u00df') ]

def lowerT : List (String × Char) :=
  [ ("target", '\u2316'), ("tau", '\u03c4'), ("tbrk", '\u23b4'), ("tcaron", '\u0165'),
    ("tcedil", '\u0163'), ("tcy", '\u0442'), ("tdot", '\u20db'), ("telrec", '\u2315'), ("tfr", '𝔱'),
    ("there4", '\u2234'), ("therefore", '\u2234'), ("theta", '\u03b8'), ("thetasym", '\u03d1'),
    ("thetav", '\u03d1'), ("thickapprox", '\u2248'), ("thicksim", '\u223c'), ("thinsp", '\u2009'),
    ("thkap", '\u2248'), ("thksim", '\u223c'), ("thorn", '\u00fe'), ("tilde", '\u02dc'),
    ("times", '\u00d7'), ("timesb", '\u22a0'), ("timesbar", '\u2a31'), ("timesd", '\u2a30'),
    ("tint", '\u222d'), ("toea", '\u2928'), ("top", '\u22a4'), ("topbot", '\u2336'),
    ("topcir", '\u2af1'), ("topf", '𝕥'), ("topfork", '\u2ada'), ("tosa", '\u2929'),
    ("tprime", '\u2034'), ("trade", '\u2122'), ("triangle", '\u25b5'), ("triangledown", '\u25bf'),
    ("triangleleft", '\u25c3'), ("trianglelefteq", '\u22b4'), ("triangleq", '\u225c'),
    ("triangleright", '\u25b9'), ("trianglerighteq", '\u22b5'), ("tridot", '\u25ec'),
    ("trie", '\u225c'), ("triminus", '\u2a3a'), ("triplus", '\u2a39'), ("trisb", '\u29cd'),
    ("tritime", '\u2a3b'), ("trpezium", '\u23e2'), ("tscr", '𝓉'), ("tscy", '\u0446'),
    ("tshcy", '\u045b'), ("tstrok", '\u0167'), ("twixt", '\u226c'), ("twoheadleftarrow", '\u219e'),
    ("twoheadrightarrow", '\u21a0') ]

def lowerU : List (String × Char) :=
  [ ("uArr", '\u21d1'), ("uHar", '\u2963'), ("uacute", '\u00fa'), ("uarr", '\u2191'),
    ("ubrcy", '\u045e'), ("ubreve", '\u016d'), ("ucirc", '\u00fb'), ("ucy", '\u0443'),
    ("udarr", '\u21c5'), ("udblac", '\u0171'), ("udhar", '\u296e'), ("ufisht", '\u297e'),
    ("ufr", '𝔲'), ("ugrave", '\u00f9'), ("uharl", '\u21bf'), ("uharr", '\u21be'),
    ("uhblk", '\u2580'), ("ulcorn", '\u231c'), ("ulcorner", '\u231c'), ("ulcrop", '\u230f'),
    ("ultri", '\u25f8'), ("umacr", '\u016b'), ("uml", '\u00a8'), ("uogon", '\u0173'), ("uopf", '𝕦'),
    ("uparrow", '\u2191'), ("updownarrow", '\u2195'), ("upharpoonleft", '\u21bf'),
    ("upharpoonright", '\u21be'), ("uplus", '\u228e'), ("upsi", '\u03c5'), ("upsih", '\u03d2'),
    ("upsilon", '\u03c5'), ("upuparrows", '\u21c8'), ("urcorn", '\u231d'), ("urcorner", '\u231d'),
    ("urcrop", '\u230e'), ("uring", '\u016f'), ("urtri", '\u25f9'), ("uscr", '𝓊'),
    ("utdot", '\u22f0'), ("utilde", '\u0169'), ("utri", '\u25b5'), ("utrif", '\u25b4'),
    ("uuarr", '\u21c8'), ("uuml", '\u00fc'), ("uwangle", '\u29a7') ]

def lowerV : List (String × Char) :=
  [ ("vArr", '\u21d5'), ("vBar", '\u2ae8'), ("vBarv", '\u2ae9'), ("vDash", '\u22a8'),
    ("vangrt", '\u299c'), ("varepsilon", '\u03f5'), ("varkappa", '\u03f0'),
    ("varnothing", '\u2205'), ("varphi", '\u03d5'), ("varpi", '\u03d6'), ("varpropto", '\u221d'),
    ("varr", '\u2195'), ("varrho", '\u03f1'), ("varsigma", '\u03c2'), ("varsubsetneq", '\u228a'),
    ("varsubsetneqq", '\u2acb'), ("varsupsetneq", '\u228b'), ("varsupsetneqq", '\u2acc'),
    ("vartheta", '\u03d1'), ("vartriangleleft", '\u22b2'), ("vartriangleright", '\u22b3'),
    ("vcy", '\u0432'), ("vdash", '\u22a2'), ("vee", '\u2228'), ("veebar", '\u22bb'),
    ("veeeq", '\u225a'), ("vellip", '\u22ee'), ("verbar", '\u007c'), ("vert", '\u007c'),
    ("vfr", '𝔳'), ("vltri", '\u22b2'), ("vnsub", '\u2282'), ("vnsup", '\u2283'), ("vopf", '𝕧'),
    ("vprop", '\u221d'), ("vrtri", '\u22b3'), ("vscr", '𝓋'), ("vsubnE", '\u2acb'),
    ("vsubne", '\u228a'), ("vsupnE", '\u2acc'), ("vsupne", '\u228b'), ("vzigzag", '\u299a') ]

def lowerW : List (String × Char) :=
  [ ("wcirc", '\u0175'), ("wedbar", '\u2a5f'), ("wedge", '\u2227'), ("wedgeq", '\u2259'),
    ("weierp", '\u2118'), ("wfr", '𝔴'), ("wopf", '𝕨'), ("wp", '\u2118'), ("wr", '\u2240'),
    ("wreath", '\u2240'), ("wscr", '𝓌') ]

def lowerX : List (String × Char) :=
  [ ("xcap", '\u22c2'), ("xcirc", '\u25ef'), ("xcup", '\u22c3'), ("xdtri", '\u25bd'), ("xfr", '𝔵'),
    ("xhArr", '\u27fa'), ("xharr", '\u27f7'), ("xi", '\u03be'), ("xlArr", '\u27f8'),
    ("xlarr", '\u27f5'), ("xmap", '\u27fc'), ("xnis", '\u22fb'), ("xodot", '\u2a00'), ("xopf", '𝕩'),
    ("xoplus", '\u2a01'), ("xotime", '\u2a02'), ("xrArr", '\u27f9'), ("xrarr", '\u27f6'),
    ("xscr", '𝓍'), ("xsqcup", '\u2a06'), ("xuplus", '\u2a04'), ("xutri", '\u25b3'),
    ("xvee", '\u22c1'), ("xwedge", '\u22c0') ]

def lowerY : List (String × Char) :=
  [ ("yacute", '\u00fd'), ("yacy", '\u044f'), ("ycirc", '\u0177'), ("ycy", '\u044b'),
    ("yen", '\u00a5'), ("yfr", '𝔶'), ("yicy", '\u0457'), ("yopf", '𝕪'), ("yscr", '𝓎'),
    ("yucy", '\u044e'), ("yuml", '\u00ff') ]

def lowerZ : List (String × Char) :=
  [ ("zacute", '\u017a'), ("zcaron", '\u017e'), ("zcy", '\u0437'), ("zdot", '\u017c'),
    ("zeetrf", '\u2128'), ("zeta", '\u03b6'), ("zfr", '𝔷'), ("zhcy", '\u0436'),
    ("zigrarr", '\u21dd'), ("zopf", '𝕫'), ("zscr", '𝓏'), ("zwj", '\u200d'), ("zwnj", '\u200c') ]

end ForumMarkup.Entity
