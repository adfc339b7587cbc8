/-!
# Named character references

The names that markup can write behind an ampersand, and the characters that each stands for.
Most names end in a semicolon; some are also known without it.  The names are grouped by their
first letter.  Within a group a name stands before every name that it starts with, so the first
name that fits a text is the longest.
-/

namespace Scaffold.Html

/-- The names that start with `A`. -/
def entitiesUpperA : List (String × String) :=
  [("Auml;", "\u00c4"), ("Auml", "\u00c4"), ("Atilde;", "\u00c3"), ("Atilde", "\u00c3"),
    ("Assign;", "\u2254"), ("Ascr;", "𝒜"), ("Aring;", "\u00c5"), ("Aring", "\u00c5"),
    ("ApplyFunction;", "\u2061"), ("Aopf;", "𝔸"), ("Aogon;", "\u0104"), ("And;", "\u2a53"),
    ("Amacr;", "\u0100"), ("Alpha;", "\u0391"), ("Agrave;", "\u00c0"), ("Agrave", "\u00c0"),
    ("Afr;", "𝔄"), ("Acy;", "\u0410"), ("Acirc;", "\u00c2"), ("Acirc", "\u00c2"),
    ("Abreve;", "\u0102"), ("Aacute;", "\u00c1"), ("Aacute", "\u00c1"), ("AMP;", "&"),
    ("AMP", "&"), ("AElig;", "\u00c6"), ("AElig", "\u00c6")]

/-- The names that start with `B`. -/
def entitiesUpperB : List (String × String) :=
  [("Bumpeq;", "\u224e"), ("Bscr;", "\u212c"), ("Breve;", "\u02d8"), ("Bopf;", "𝔹"),
    ("Bfr;", "𝔅"), ("Beta;", "\u0392"), ("Bernoullis;", "\u212c"), ("Because;", "\u2235"),
    ("Bcy;", "\u0411"), ("Barwed;", "\u2306"), ("Barv;", "\u2ae7"), ("Backslash;", "\u2216")]

/-- The names that start with `C`. -/
def entitiesUpperC : List (String × String) :=
  [("CupCap;", "\u224d"), ("Cup;", "\u22d3"), ("Cscr;", "𝒞"), ("Cross;", "\u2a2f"),
    ("CounterClockwiseContourIntegral;", "\u2233"), ("Coproduct;", "\u2210"), ("Copf;", "\u2102"),
    ("ContourIntegral;", "\u222e"), ("Conint;", "\u222f"), ("Congruent;", "\u2261"),
    ("Colone;", "\u2a74"), ("Colon;", "\u2237"), ("CloseCurlyQuote;", "\u2019"),
    ("CloseCurlyDoubleQuote;", "\u201d"), ("ClockwiseContourIntegral;", "\u2232"),
    ("CircleTimes;", "\u2297"), ("CirclePlus;", "\u2295"), ("CircleMinus;", "\u2296"),
    ("CircleDot;", "\u2299"), ("Chi;", "\u03a7"), ("Cfr;", "\u212d"), ("CenterDot;", "\u00b7"),
    ("Cedilla;", "\u00b8"), ("Cdot;", "\u010a"), ("Cconint;", "\u2230"), ("Ccirc;", "\u0108"),
    ("Ccedil;", "\u00c7"), ("Ccedil", "\u00c7"), ("Ccaron;", "\u010c"), ("Cayleys;", "\u212d"),
    ("CapitalDifferentialD;", "\u2145"), ("Cap;", "\u22d2"), ("Cacute;", "\u0106"),
    ("COPY;", "\u00a9"), ("COPY", "\u00a9"), ("CHcy;", "\u0427")]

/-- The names that start with `D`. -/
def entitiesUpperD : List (String × String) :=
  [("Dstrok;", "\u0110"), ("Dscr;", "𝒟"), ("Downarrow;", "\u21d3"), ("DownTeeArrow;", "\u21a7"),
    ("DownTee;", "\u22a4"), ("DownRightVectorBar;", "\u2957"), ("DownRightVector;", "\u21c1"),
    ("DownRightTeeVector;", "\u295f"), ("DownLeftVectorBar;", "\u2956"),
    ("DownLeftVector;", "\u21bd"), ("DownLeftTeeVector;", "\u295e"),
    ("DownLeftRightVector;", "\u2950"), ("DownBreve;", "\u0311"), ("DownArrowUpArrow;", "\u21f5"),
    ("DownArrowBar;", "\u2913"), ("DownArrow;", "\u2193"), ("DoubleVerticalBar;", "\u2225"),
    ("DoubleUpDownArrow;", "\u21d5"), ("DoubleUpArrow;", "\u21d1"), ("DoubleRightTee;", "\u22a8"),
    ("DoubleRightArrow;", "\u21d2"), ("DoubleLongRightArrow;", "\u27f9"),
    ("DoubleLongLeftRightArrow;", "\u27fa"), ("DoubleLongLeftArrow;", "\u27f8"),
    ("DoubleLeftTee;", "\u2ae4"), ("DoubleLeftRightArrow;", "\u21d4"),
    ("DoubleLeftArrow;", "\u21d0"), ("DoubleDownArrow;", "\u21d3"), ("DoubleDot;", "\u00a8"),
    ("DoubleContourIntegral;", "\u222f"), ("DotEqual;", "\u2250"), ("DotDot;", "\u20dc"),
    ("Dot;", "\u00a8"), ("Dopf;", "𝔻"), ("DifferentialD;", "\u2146"), ("Diamond;", "\u22c4"),
    ("DiacriticalTilde;", "\u02dc"), ("DiacriticalGrave;", "`"),
    ("DiacriticalDoubleAcute;", "\u02dd"), ("DiacriticalDot;", "\u02d9"),
    ("DiacriticalAcute;", "\u00b4"), ("Dfr;", "𝔇"), ("Delta;", "\u0394"), ("Del;", "\u2207"),
    ("Dcy;", "\u0414"), ("Dcaron;", "\u010e"), ("Dashv;", "\u2ae4"), ("Darr;", "\u21a1"),
    ("Dagger;", "\u2021"), ("DZcy;", "\u040f"), ("DScy;", "\u0405"), ("DJcy;", "\u0402"),
    ("DDotrahd;", "\u2911"), ("DD;", "\u2145")]

/-- The names that start with `E`. -/
def entitiesUpperE : List (String × String) :=
  [("ExponentialE;", "\u2147"), ("Exists;", "\u2203"), ("Euml;", "\u00cb"), ("Euml", "\u00cb"),
    ("Eta;", "\u0397"), ("Esim;", "\u2a73"), ("Escr;", "\u2130"), ("Equilibrium;", "\u21cc"),
    ("EqualTilde;", "\u2242"), ("Equal;", "\u2a75"), ("Epsilon;", "\u0395"), ("Eopf;", "𝔼"),
    ("Eogon;", "\u0118"), ("EmptyVerySmallSquare;", "\u25ab"), ("EmptySmallSquare;", "\u25fb"),
    ("Emacr;", "\u0112"), ("Element;", "\u2208"), ("Egrave;", "\u00c8"), ("Egrave", "\u00c8"),
    ("Efr;", "𝔈"), ("Edot;", "\u0116"), ("Ecy;", "\u042d"), ("Ecirc;", "\u00ca"),
    ("Ecirc", "\u00ca"), ("Ecaron;", "\u011a"), ("Eacute;", "\u00c9"), ("Eacute", "\u00c9"),
    ("ETH;", "\u00d0"), ("ETH", "\u00d0"), ("ENG;", "\u014a")]

/-- The names that start with `F`. -/
def entitiesUpperF : List (String × String) :=
  [("Fscr;", "\u2131"), ("Fouriertrf;", "\u2131"), ("ForAll;", "\u2200"), ("Fopf;", "𝔽"),
    ("FilledVerySmallSquare;", "\u25aa"), ("FilledSmallSquare;", "\u25fc"), ("Ffr;", "𝔉"),
    ("Fcy;", "\u0424")]

/-- The names that start with `G`. -/
def entitiesUpperG : List (String × String) :=
  [("Gt;", "\u226b"), ("Gscr;", "𝒢"), ("GreaterTilde;", "\u2273"),
    ("GreaterSlantEqual;", "\u2a7e"), ("GreaterLess;", "\u2277"), ("GreaterGreater;", "\u2aa2"),
    ("GreaterFullEqual;", "\u2267"), ("GreaterEqualLess;", "\u22db"), ("GreaterEqual;", "\u2265"),
    ("Gopf;", "𝔾"), ("Gg;", "\u22d9"), ("Gfr;", "𝔊"), ("Gdot;", "\u0120"), ("Gcy;", "\u0413"),
    ("Gcirc;", "\u011c"), ("Gcedil;", "\u0122"), ("Gbreve;", "\u011e"), ("Gammad;", "\u03dc"),
    ("Gamma;", "\u0393"), ("GT;", ">"), ("GT", ">"), ("GJcy;", "\u0403")]

/-- The names that start with `H`. -/
def entitiesUpperH : List (String × String) :=
  [("HumpEqual;", "\u224f"), ("HumpDownHump;", "\u224e"), ("Hstrok;", "\u0126"),
    ("Hscr;", "\u210b"), ("HorizontalLine;", "\u2500"), ("Hopf;", "\u210d"),
    ("HilbertSpace;", "\u210b"), ("Hfr;", "\u210c"), ("Hcirc;", "\u0124"), ("Hat;", "^"),
    ("Hacek;", "\u02c7"), ("HARDcy;", "\u042a")]

/-- The names that start with `I`. -/
def entitiesUpperI : List (String × String) :=
  [("Iuml;", "\u00cf"), ("Iuml", "\u00cf"), ("Iukcy;", "\u0406"), ("Itilde;", "\u0128"),
    ("Iscr;", "\u2110"), ("Iota;", "\u0399"), ("Iopf;", "𝕀"), ("Iogon;", "\u012e"),
    ("InvisibleTimes;", "\u2062"), ("InvisibleComma;", "\u2063"), ("Intersection;", "\u22c2"),
    ("Integral;", "\u222b"), ("Int;", "\u222c"), ("Implies;", "\u21d2"),
    ("ImaginaryI;", "\u2148"), ("Imacr;", "\u012a"), ("Im;", "\u2111"), ("Igrave;", "\u00cc"),
    ("Igrave", "\u00cc"), ("Ifr;", "\u2111"), ("Idot;", "\u0130"), ("Icy;", "\u0418"),
    ("Icirc;", "\u00ce"), ("Icirc", "\u00ce"), ("Iacute;", "\u00cd"), ("Iacute", "\u00cd"),
    ("IOcy;", "\u0401"), ("IJlig;", "\u0132"), ("IEcy;", "\u0415")]

/-- The names that start with `J`. -/
def entitiesUpperJ : List (String × String) :=
  [("Jukcy;", "\u0404"), ("Jsercy;", "\u0408"), ("Jscr;", "𝒥"), ("Jopf;", "𝕁"), ("Jfr;", "𝔍"),
    ("Jcy;", "\u0419"), ("Jcirc;", "\u0134")]

/-- The names that start with `K`. -/
def entitiesUpperK : List (String × String) :=
  [("Kscr;", "𝒦"), ("Kopf;", "𝕂"), ("Kfr;", "𝔎"), ("Kcy;", "\u041a"), ("Kcedil;", "\u0136"),
    ("Kappa;", "\u039a"), ("KJcy;", "\u040c"), ("KHcy;", "\u0425")]

/-- The names that start with `L`. -/
def entitiesUpperL : List (String × String) :=
  [("Lt;", "\u226a"), ("Lstrok;", "\u0141"), ("Lsh;", "\u21b0"), ("Lscr;", "\u2112"),
    ("LowerRightArrow;", "\u2198"), ("LowerLeftArrow;", "\u2199"), ("Lopf;", "𝕃"),
    ("Longrightarrow;", "\u27f9"), ("Longleftrightarrow;", "\u27fa"),
    ("Longleftarrow;", "\u27f8"), ("LongRightArrow;", "\u27f6"),
    ("LongLeftRightArrow;", "\u27f7"), ("LongLeftArrow;", "\u27f5"), ("Lmidot;", "\u013f"),
    ("Lleftarrow;", "\u21da"), ("Ll;", "\u22d8"), ("Lfr;", "𝔏"), ("LessTilde;", "\u2272"),
    ("LessSlantEqual;", "\u2a7d"), ("LessLess;", "\u2aa1"), ("LessGreater;", "\u2276"),
    ("LessFullEqual;", "\u2266"), ("LessEqualGreater;", "\u22da"), ("Leftrightarrow;", "\u21d4"),
    ("Leftarrow;", "\u21d0"), ("LeftVectorBar;", "\u2952"), ("LeftVector;", "\u21bc"),
    ("LeftUpVectorBar;", "\u2958"), ("LeftUpVector;", "\u21bf"), ("LeftUpTeeVector;", "\u2960"),
    ("LeftUpDownVector;", "\u2951"), ("LeftTriangleEqual;", "\u22b4"),
    ("LeftTriangleBar;", "\u29cf"), ("LeftTriangle;", "\u22b2"), ("LeftTeeVector;", "\u295a"),
    ("LeftTeeArrow;", "\u21a4"), ("LeftTee;", "\u22a3"), ("LeftRightVector;", "\u294e"),
    ("LeftRightArrow;", "\u2194"), ("LeftFloor;", "\u230a"), ("LeftDownVectorBar;", "\u2959"),
    ("LeftDownVector;", "\u21c3"), ("LeftDownTeeVector;", "\u2961"),
    ("LeftDoubleBracket;", "\u27e6"), ("LeftCeiling;", "\u2308"),
    ("LeftArrowRightArrow;", "\u21c6"), ("LeftArrowBar;", "\u21e4"), ("LeftArrow;", "\u2190"),
    ("LeftAngleBracket;", "\u27e8"), ("Lcy;", "\u041b"), ("Lcedil;", "\u013b"),
    ("Lcaron;", "\u013d"), ("Larr;", "\u219e"), ("Laplacetrf;", "\u2112"), ("Lang;", "\u27ea"),
    ("Lambda;", "\u039b"), ("Lacute;", "\u0139"), ("LT;", "<"), ("LT", "<"), ("LJcy;", "\u0409")]

/-- The names that start with `M`. -/
def entitiesUpperM : List (String × String) :=
  [("Mu;", "\u039c"), ("Mscr;", "\u2133"), ("Mopf;", "𝕄"), ("MinusPlus;", "\u2213"),
    ("Mfr;", "𝔐"), ("Mellintrf;", "\u2133"), ("MediumSpace;", "\u205f"), ("Mcy;", "\u041c"),
    ("Map;", "\u2905")]

/-- The names that start with `N`. -/
def entitiesUpperN : List (String × String) :=
  [("Nu;", "\u039d"), ("Ntilde;", "\u00d1"), ("Ntilde", "\u00d1"), ("Nscr;", "𝒩"),
    ("NotVerticalBar;", "\u2224"), ("NotTildeTilde;", "\u2249"), ("NotTildeFullEqual;", "\u2247"),
    ("NotTildeEqual;", "\u2244"), ("NotTilde;", "\u2241"), ("NotSupersetEqual;", "\u2289"),
    ("NotSuperset;", "\u2283\u20d2"), ("NotSucceedsTilde;", "\u227f\u0338"),
    ("NotSucceedsSlantEqual;", "\u22e1"), ("NotSucceedsEqual;", "\u2ab0\u0338"),
    ("NotSucceeds;", "\u2281"), ("NotSubsetEqual;", "\u2288"), ("NotSubset;", "\u2282\u20d2"),
    ("NotSquareSupersetEqual;", "\u22e3"), ("NotSquareSuperset;", "\u2290\u0338"),
    ("NotSquareSubsetEqual;", "\u22e2"), ("NotSquareSubset;", "\u228f\u0338"),
    ("NotRightTriangleEqual;", "\u22ed"), ("NotRightTriangleBar;", "\u29d0\u0338"),
    ("NotRightTriangle;", "\u22eb"), ("NotReverseElement;", "\u220c"),
    ("NotPrecedesSlantEqual;", "\u22e0"), ("NotPrecedesEqual;", "\u2aaf\u0338"),
    ("NotPrecedes;", "\u2280"), ("NotNestedLessLess;", "\u2aa1\u0338"),
    ("NotNestedGreaterGreater;", "\u2aa2\u0338"), ("NotLessTilde;", "\u2274"),
    ("NotLessSlantEqual;", "\u2a7d\u0338"), ("NotLessLess;", "\u226a\u0338"),
    ("NotLessGreater;", "\u2278"), ("NotLessEqual;", "\u2270"), ("NotLess;", "\u226e"),
    ("NotLeftTriangleEqual;", "\u22ec"), ("NotLeftTriangleBar;", "\u29cf\u0338"),
    ("NotLeftTriangle;", "\u22ea"), ("NotHumpEqual;", "\u224f\u0338"),
    ("NotHumpDownHump;", "\u224e\u0338"), ("NotGreaterTilde;", "\u2275"),
    ("NotGreaterSlantEqual;", "\u2a7e\u0338"), ("NotGreaterLess;", "\u2279"),
    ("NotGreaterGreater;", "\u226b\u0338"), ("NotGreaterFullEqual;", "\u2267\u0338"),
    ("NotGreaterEqual;", "\u2271"), ("NotGreater;", "\u226f"), ("NotExists;", "\u2204"),
    ("NotEqualTilde;", "\u2242\u0338"), ("NotEqual;", "\u2260"), ("NotElement;", "\u2209"),
    ("NotDoubleVerticalBar;", "\u2226"), ("NotCupCap;", "\u226d"), ("NotCongruent;", "\u2262"),
    ("Not;", "\u2aec"), ("Nopf;", "\u2115"), ("NonBreakingSpace;", "\u00a0"),
    ("NoBreak;", "\u2060"), ("Nfr;", "𝔑"), ("NewLine;", "\n"), ("NestedLessLess;", "\u226a"),
    ("NestedGreaterGreater;", "\u226b"), ("NegativeVeryThinSpace;", "\u200b"),
    ("NegativeThinSpace;", "\u200b"), ("NegativeThickSpace;", "\u200b"),
    ("NegativeMediumSpace;", "\u200b"), ("Ncy;", "\u041d"), ("Ncedil;", "\u0145"),
    ("Ncaron;", "\u0147"), ("Nacute;", "\u0143"), ("NJcy;", "\u040a")]

/-- The names that start with `O`. -/
def entitiesUpperO : List (String × String) :=
  [("OverParenthesis;", "\u23dc"), ("OverBracket;", "\u23b4"), ("OverBrace;", "\u23de"),
    ("OverBar;", "\u203e"), ("Ouml;", "\u00d6"), ("Ouml", "\u00d6"), ("Otimes;", "\u2a37"),
    ("Otilde;", "\u00d5"), ("Otilde", "\u00d5"), ("Oslash;", "\u00d8"), ("Oslash", "\u00d8"),
    ("Oscr;", "𝒪"), ("Or;", "\u2a54"), ("OpenCurlyQuote;", "\u2018"),
    ("OpenCurlyDoubleQuote;", "\u201c"), ("Oopf;", "𝕆"), ("Omicron;", "\u039f"),
    ("Omega;", "\u03a9"), ("Omacr;", "\u014c"), ("Ograve;", "\u00d2"), ("Ograve", "\u00d2"),
    ("Ofr;", "𝔒"), ("Odblac;", "\u0150"), ("Ocy;", "\u041e"), ("Ocirc;", "\u00d4"),
    ("Ocirc", "\u00d4"), ("Oacute;", "\u00d3"), ("Oacute", "\u00d3"), ("OElig;", "\u0152")]

/-- The names that start with `P`. -/
def entitiesUpperP : List (String × String) :=
  [("Psi;", "\u03a8"), ("Pscr;", "𝒫"), ("Proportional;", "\u221d"), ("Proportion;", "\u2237"),
    ("Product;", "\u220f"), ("Prime;", "\u2033"), ("PrecedesTilde;", "\u227e"),
    ("PrecedesSlantEqual;", "\u227c"), ("PrecedesEqual;", "\u2aaf"), ("Precedes;", "\u227a"),
    ("Pr;", "\u2abb"), ("Popf;", "\u2119"), ("Poincareplane;", "\u210c"),
    ("PlusMinus;", "\u00b1"), ("Pi;", "\u03a0"), ("Phi;", "\u03a6"), ("Pfr;", "𝔓"),
    ("Pcy;", "\u041f"), ("PartialD;", "\u2202")]

/-- The names that start with `Q`. -/
def entitiesUpperQ : List (String × String) :=
  [("Qscr;", "𝒬"), ("Qopf;", "\u211a"), ("Qfr;", "𝔔"), ("QUOT;", "\""), ("QUOT", "\"")]

/-- The names that start with `R`. -/
def entitiesUpperR : List (String × String) :=
  [("RuleDelayed;", "\u29f4"), ("Rsh;", "\u21b1"), ("Rscr;", "\u211b"),
    ("Rrightarrow;", "\u21db"), ("RoundImplies;", "\u2970"), ("Ropf;", "\u211d"),
    ("Rightarrow;", "\u21d2"), ("RightVectorBar;", "\u2953"), ("RightVector;", "\u21c0"),
    ("RightUpVectorBar;", "\u2954"), ("RightUpVector;", "\u21be"),
    ("RightUpTeeVector;", "\u295c"), ("RightUpDownVector;", "\u294f"),
    ("RightTriangleEqual;", "\u22b5"), ("RightTriangleBar;", "\u29d0"),
    ("RightTriangle;", "\u22b3"), ("RightTeeVector;", "\u295b"), ("RightTeeArrow;", "\u21a6"),
    ("RightTee;", "\u22a2"), ("RightFloor;", "\u230b"), ("RightDownVectorBar;", "\u2955"),
    ("RightDownVector;", "\u21c2"), ("RightDownTeeVector;", "\u295d"),
    ("RightDoubleBracket;", "\u27e7"), ("RightCeiling;", "\u2309"),
    ("RightArrowLeftArrow;", "\u21c4"), ("RightArrowBar;", "\u21e5"), ("RightArrow;", "\u2192"),
    ("RightAngleBracket;", "\u27e9"), ("Rho;", "\u03a1"), ("Rfr;", "\u211c"),
    ("ReverseUpEquilibrium;", "\u296f"), ("ReverseEquilibrium;", "\u21cb"),
    ("ReverseElement;", "\u220b"), ("Re;", "\u211c"), ("Rcy;", "\u0420"), ("Rcedil;", "\u0156"),
    ("Rcaron;", "\u0158"), ("Rarrtl;", "\u2916"), ("Rarr;", "\u21a0"), ("Rang;", "\u27eb"),
    ("Racute;", "\u0154"), ("REG;", "\u00ae"), ("REG", "\u00ae"), ("RBarr;", "\u2910")]

/-- The names that start with `S`. -/
def entitiesUpperS : List (String × String) :=
  [("Supset;", "\u22d1"), ("SupersetEqual;", "\u2287"), ("Superset;", "\u2283"),
    ("Sup;", "\u22d1"), ("Sum;", "\u2211"), ("SuchThat;", "\u220b"), ("SucceedsTilde;", "\u227f"),
    ("SucceedsSlantEqual;", "\u227d"), ("SucceedsEqual;", "\u2ab0"), ("Succeeds;", "\u227b"),
    ("SubsetEqual;", "\u2286"), ("Subset;", "\u22d0"), ("Sub;", "\u22d0"), ("Star;", "\u22c6"),
    ("Sscr;", "𝒮"), ("SquareUnion;", "\u2294"), ("SquareSupersetEqual;", "\u2292"),
    ("SquareSuperset;", "\u2290"), ("SquareSubsetEqual;", "\u2291"), ("SquareSubset;", "\u228f"),
    ("SquareIntersection;", "\u2293"), ("Square;", "\u25a1"), ("Sqrt;", "\u221a"), ("Sopf;", "𝕊"),
    ("SmallCircle;", "\u2218"), ("Sigma;", "\u03a3"), ("ShortUpArrow;", "\u2191"),
    ("ShortRightArrow;", "\u2192"), ("ShortLeftArrow;", "\u2190"), ("ShortDownArrow;", "\u2193"),
    ("Sfr;", "𝔖"), ("Scy;", "\u0421"), ("Scirc;", "\u015c"), ("Scedil;", "\u015e"),
    ("Scaron;", "\u0160"), ("Sc;", "\u2abc"), ("Sacute;", "\u015a"), ("SOFTcy;", "\u042c"),
    ("SHcy;", "\u0428"), ("SHCHcy;", "\u0429")]

/-- The names that start with `T`. -/
def entitiesUpperT : List (String × String) :=
  [("Tstrok;", "\u0166"), ("Tscr;", "𝒯"), ("TripleDot;", "\u20db"), ("Topf;", "𝕋"),
    ("TildeTilde;", "\u2248"), ("TildeFullEqual;", "\u2245"), ("TildeEqual;", "\u2243"),
    ("Tilde;", "\u223c"), ("ThinSpace;", "\u2009"), ("ThickSpace;", "\u205f\u200a"),
    ("Theta;", "\u0398"), ("Therefore;", "\u2234"), ("Tfr;", "𝔗"), ("Tcy;", "\u0422"),
    ("Tcedil;", "\u0162"), ("Tcaron;", "\u0164"), ("Tau;", "\u03a4"), ("Tab;", "\t"),
    ("TScy;", "\u0426"), ("TSHcy;", "\u040b"), ("TRADE;", "\u2122"), ("THORN;", "\u00de"),
    ("THORN", "\u00de")]

/-- The names that start with `U`. -/
def entitiesUpperU : List (String × String) :=
  [("Uuml;", "\u00dc"), ("Uuml", "\u00dc"), ("Utilde;", "\u0168"), ("Uscr;", "𝒰"),
    ("Uring;", "\u016e"), ("Upsilon;", "\u03a5"), ("Upsi;", "\u03d2"),
    ("UpperRightArrow;", "\u2197"), ("UpperLeftArrow;", "\u2196"), ("Updownarrow;", "\u21d5"),
    ("Uparrow;", "\u21d1"), ("UpTeeArrow;", "\u21a5"), ("UpTee;", "\u22a5"),
    ("UpEquilibrium;", "\u296e"), ("UpDownArrow;", "\u2195"), ("UpArrowDownArrow;", "\u21c5"),
    ("UpArrowBar;", "\u2912"), ("UpArrow;", "\u2191"), ("Uopf;", "𝕌"), ("Uogon;", "\u0172"),
    ("UnionPlus;", "\u228e"), ("Union;", "\u22c3"), ("UnderParenthesis;", "\u23dd"),
    ("UnderBracket;", "\u23b5"), ("UnderBrace;", "\u23df"), ("UnderBar;", "_"),
    ("Umacr;", "\u016a"), ("Ugrave;", "\u00d9"), ("Ugrave", "\u00d9"), ("Ufr;", "𝔘"),
    ("Udblac;", "\u0170"), ("Ucy;", "\u0423"), ("Ucirc;", "\u00db"), ("Ucirc", "\u00db"),
    ("Ubreve;", "\u016c"), ("Ubrcy;", "\u040e"), ("Uarrocir;", "\u2949"), ("Uarr;", "\u219f"),
    ("Uacute;", "\u00da"), ("Uacute", "\u00da")]

/-- The names that start with `V`. -/
def entitiesUpperV : List (String × String) :=
  [("Vvdash;", "\u22aa"), ("Vscr;", "𝒱"), ("Vopf;", "𝕍"), ("Vfr;", "𝔙"),
    ("VeryThinSpace;", "\u200a"), ("VerticalTilde;", "\u2240"), ("VerticalSeparator;", "\u2758"),
    ("VerticalLine;", "|"), ("VerticalBar;", "\u2223"), ("Vert;", "\u2016"),
    ("Verbar;", "\u2016"), ("Vee;", "\u22c1"), ("Vdashl;", "\u2ae6"), ("Vdash;", "\u22a9"),
    ("Vcy;", "\u0412"), ("Vbar;", "\u2aeb"), ("VDash;", "\u22ab")]

/-- The names that start with `W`. -/
def entitiesUpperW : List (String × String) :=
  [("Wscr;", "𝒲"), ("Wopf;", "𝕎"), ("Wfr;", "𝔚"), ("Wedge;", "\u22c0"), ("Wcirc;", "\u0174")]

/-- The names that start with `X`. -/
def entitiesUpperX : List (String × String) :=
  [("Xscr;", "𝒳"), ("Xopf;", "𝕏"), ("Xi;", "\u039e"), ("Xfr;", "𝔛")]

/-- The names that start with `Y`. -/
def entitiesUpperY : List (String × String) :=
  [("Yuml;", "\u0178"), ("Yscr;", "𝒴"), ("Yopf;", "𝕐"), ("Yfr;", "𝔜"), ("Ycy;", "\u042b"),
    ("Ycirc;", "\u0176"), ("Yacute;", "\u00dd"), ("Yacute", "\u00dd"), ("YUcy;", "\u042e"),
    ("YIcy;", "\u0407"), ("YAcy;", "\u042f")]

/-- The names that start with `Z`. -/
def entitiesUpperZ : List (String × String) :=
  [("Zscr;", "𝒵"), ("Zopf;", "\u2124"), ("Zfr;", "\u2128"), ("Zeta;", "\u0396"),
    ("ZeroWidthSpace;", "\u200b"), ("Zdot;", "\u017b"), ("Zcy;", "\u0417"), ("Zcaron;", "\u017d"),
    ("Zacute;", "\u0179"), ("ZHcy;", "\u0416")]

/-- The names that start with `a`. -/
def entitiesLowerA : List (String × String) :=
  [("awint;", "\u2a11"), ("awconint;", "\u2233"), ("auml;", "\u00e4"), ("auml", "\u00e4"),
    ("atilde;", "\u00e3"), ("atilde", "\u00e3"), ("asympeq;", "\u224d"), ("asymp;", "\u2248"),
    ("ast;", "*"), ("ascr;", "𝒶"), ("aring;", "\u00e5"), ("aring", "\u00e5"),
    ("approxeq;", "\u224a"), ("approx;", "\u2248"), ("apos;", "'"), ("apid;", "\u224b"),
    ("ape;", "\u224a"), ("apacir;", "\u2a6f"), ("apE;", "\u2a70"), ("ap;", "\u2248"),
    ("aopf;", "𝕒"), ("aogon;", "\u0105"), ("angzarr;", "\u237c"), ("angst;", "\u00c5"),
    ("angsph;", "\u2222"), ("angrtvbd;", "\u299d"), ("angrtvb;", "\u22be"), ("angrt;", "\u221f"),
    ("angmsdah;", "\u29af"), ("angmsdag;", "\u29ae"), ("angmsdaf;", "\u29ad"),
    ("angmsdae;", "\u29ac"), ("angmsdad;", "\u29ab"), ("angmsdac;", "\u29aa"),
    ("angmsdab;", "\u29a9"), ("angmsdaa;", "\u29a8"), ("angmsd;", "\u2221"), ("angle;", "\u2220"),
    ("ange;", "\u29a4"), ("ang;", "\u2220"), ("andv;", "\u2a5a"), ("andslope;", "\u2a58"),
    ("andd;", "\u2a5c"), ("andand;", "\u2a55"), ("and;", "\u2227"), ("amp;", "&"), ("amp", "&"),
    ("amalg;", "\u2a3f"), ("amacr;", "\u0101"), ("alpha;", "\u03b1"), ("aleph;", "\u2135"),
    ("alefsym;", "\u2135"), ("agrave;", "\u00e0"), ("agrave", "\u00e0"), ("afr;", "𝔞"),
    ("af;", "\u2061"), ("aelig;", "\u00e6"), ("aelig", "\u00e6"), ("acy;", "\u0430"),
    ("acute;", "\u00b4"), ("acute", "\u00b4"), ("acirc;", "\u00e2"), ("acirc", "\u00e2"),
    ("acd;", "\u223f"), ("acE;", "\u223e\u0333"), ("ac;", "\u223e"), ("abreve;", "\u0103"),
    ("aacute;", "\u00e1"), ("aacute", "\u00e1")]

/-- The names that start with `b`. -/
def entitiesLowerB : List (String × String) :=
  [("bumpeq;", "\u224f"), ("bumpe;", "\u224f"), ("bumpE;", "\u2aae"), ("bump;", "\u224e"),
    ("bullet;", "\u2022"), ("bull;", "\u2022"), ("bsolhsub;", "\u27c8"), ("bsolb;", "\u29c5"),
    ("bsol;", "\\"), ("bsime;", "\u22cd"), ("bsim;", "\u223d"), ("bsemi;", "\u204f"),
    ("bscr;", "𝒷"), ("brvbar;", "\u00a6"), ("brvbar", "\u00a6"), ("breve;", "\u02d8"),
    ("bprime;", "\u2035"), ("boxvr;", "\u251c"), ("boxvl;", "\u2524"), ("boxvh;", "\u253c"),
    ("boxvR;", "\u255e"), ("boxvL;", "\u2561"), ("boxvH;", "\u256a"), ("boxv;", "\u2502"),
    ("boxur;", "\u2514"), ("boxul;", "\u2518"), ("boxuR;", "\u2558"), ("boxuL;", "\u255b"),
    ("boxtimes;", "\u22a0"), ("boxplus;", "\u229e"), ("boxminus;", "\u229f"),
    ("boxhu;", "\u2534"), ("boxhd;", "\u252c"), ("boxhU;", "\u2568"), ("boxhD;", "\u2565"),
    ("boxh;", "\u2500"), ("boxdr;", "\u250c"), ("boxdl;", "\u2510"), ("boxdR;", "\u2552"),
    ("boxdL;", "\u2555"), ("boxbox;", "\u29c9"), ("boxVr;", "\u255f"), ("boxVl;", "\u2562"),
    ("boxVh;", "\u256b"), ("boxVR;", "\u2560"), ("boxVL;", "\u2563"), ("boxVH;", "\u256c"),
    ("boxV;", "\u2551"), ("boxUr;", "\u2559"), ("boxUl;", "\u255c"), ("boxUR;", "\u255a"),
    ("boxUL;", "\u255d"), ("boxHu;", "\u2567"), ("boxHd;", "\u2564"), ("boxHU;", "\u2569"),
    ("boxHD;", "\u2566"), ("boxH;", "\u2550"), ("boxDr;", "\u2553"), ("boxDl;", "\u2556"),
    ("boxDR;", "\u2554"), ("boxDL;", "\u2557"), ("bowtie;", "\u22c8"), ("bottom;", "\u22a5"),
    ("bot;", "\u22a5"), ("bopf;", "𝕓"), ("bnot;", "\u2310"), ("bnequiv;", "\u2261\u20e5"),
    ("bne;", "=\u20e5"), ("block;", "\u2588"), ("blk34;", "\u2593"), ("blk14;", "\u2591"),
    ("blk12;", "\u2592"), ("blank;", "\u2423"), ("blacktriangleright;", "\u25b8"),
    ("blacktriangleleft;", "\u25c2"), ("blacktriangledown;", "\u25be"),
    ("blacktriangle;", "\u25b4"), ("blacksquare;", "\u25aa"), ("blacklozenge;", "\u29eb"),
    ("bkarow;", "\u290d"), ("bigwedge;", "\u22c0"), ("bigvee;", "\u22c1"),
    ("biguplus;", "\u2a04"), ("bigtriangleup;", "\u25b3"), ("bigtriangledown;", "\u25bd"),
    ("bigstar;", "\u2605"), ("bigsqcup;", "\u2a06"), ("bigotimes;", "\u2a02"),
    ("bigoplus;", "\u2a01"), ("bigodot;", "\u2a00"), ("bigcup;", "\u22c3"),
    ("bigcirc;", "\u25ef"), ("bigcap;", "\u22c2"), ("bfr;", "𝔟"), ("between;", "\u226c"),
    ("beth;", "\u2136"), ("beta;", "\u03b2"), ("bernou;", "\u212c"), ("bepsi;", "\u03f6"),
    ("bemptyv;", "\u29b0"), ("because;", "\u2235"), ("becaus;", "\u2235"), ("bdquo;", "\u201e"),
    ("bcy;", "\u0431"), ("bcong;", "\u224c"), ("bbrktbrk;", "\u23b6"), ("bbrk;", "\u23b5"),
    ("barwedge;", "\u2305"), ("barwed;", "\u2305"), ("barvee;", "\u22bd"),
    ("backsimeq;", "\u22cd"), ("backsim;", "\u223d"), ("backprime;", "\u2035"),
    ("backepsilon;", "\u03f6"), ("backcong;", "\u224c"), ("bNot;", "\u2aed")]

/-- The names that start with `c`. -/
def entitiesLowerC : List (String × String) :=
  [("cylcty;", "\u232d"), ("cwint;", "\u2231"), ("cwconint;", "\u2232"), ("cuwed;", "\u22cf"),
    ("cuvee;", "\u22ce"), ("curvearrowright;", "\u21b7"), ("curvearrowleft;", "\u21b6"),
    ("curren;", "\u00a4"), ("curren", "\u00a4"), ("curlywedge;", "\u22cf"),
    ("curlyvee;", "\u22ce"), ("curlyeqsucc;", "\u22df"), ("curlyeqprec;", "\u22de"),
    ("curarrm;", "\u293c"), ("curarr;", "\u21b7"), ("cups;", "\u222a\ufe00"),
    ("cupor;", "\u2a45"), ("cupdot;", "\u228d"), ("cupcup;", "\u2a4a"), ("cupcap;", "\u2a46"),
    ("cupbrcap;", "\u2a48"), ("cup;", "\u222a"), ("cularrp;", "\u293d"), ("cularr;", "\u21b6"),
    ("cuesc;", "\u22df"), ("cuepr;", "\u22de"), ("cudarrr;", "\u2935"), ("cudarrl;", "\u2938"),
    ("ctdot;", "\u22ef"), ("csupe;", "\u2ad2"), ("csup;", "\u2ad0"), ("csube;", "\u2ad1"),
    ("csub;", "\u2acf"), ("cscr;", "𝒸"), ("cross;", "\u2717"), ("crarr;", "\u21b5"),
    ("copysr;", "\u2117"), ("copy;", "\u00a9"), ("copy", "\u00a9"), ("coprod;", "\u2210"),
    ("copf;", "𝕔"), ("conint;", "\u222e"), ("congdot;", "\u2a6d"), ("cong;", "\u2245"),
    ("complexes;", "\u2102"), ("complement;", "\u2201"), ("compfn;", "\u2218"),
    ("comp;", "\u2201"), ("commat;", "@"), ("comma;", ","), ("coloneq;", "\u2254"),
    ("colone;", "\u2254"), ("colon;", ":"), ("clubsuit;", "\u2663"), ("clubs;", "\u2663"),
    ("cirscir;", "\u29c2"), ("cirmid;", "\u2aef"), ("cirfnint;", "\u2a10"), ("cire;", "\u2257"),
    ("circleddash;", "\u229d"), ("circledcirc;", "\u229a"), ("circledast;", "\u229b"),
    ("circledS;", "\u24c8"), ("circledR;", "\u00ae"), ("circlearrowright;", "\u21bb"),
    ("circlearrowleft;", "\u21ba"), ("circeq;", "\u2257"), ("circ;", "\u02c6"),
    ("cirE;", "\u29c3"), ("cir;", "\u25cb"), ("chi;", "\u03c7"), ("checkmark;", "\u2713"),
    ("check;", "\u2713"), ("chcy;", "\u0447"), ("cfr;", "𝔠"), ("centerdot;", "\u00b7"),
    ("cent;", "\u00a2"), ("cent", "\u00a2"), ("cemptyv;", "\u29b2"), ("cedil;", "\u00b8"),
    ("cedil", "\u00b8"), ("cdot;", "\u010b"), ("ccupssm;", "\u2a50"), ("ccups;", "\u2a4c"),
    ("ccirc;", "\u0109"), ("ccedil;", "\u00e7"), ("ccedil", "\u00e7"), ("ccaron;", "\u010d"),
    ("ccaps;", "\u2a4d"), ("caron;", "\u02c7"), ("caret;", "\u2041"), ("caps;", "\u2229\ufe00"),
    ("capdot;", "\u2a40"), ("capcup;", "\u2a47"), ("capcap;", "\u2a4b"), ("capbrcup;", "\u2a49"),
    ("capand;", "\u2a44"), ("cap;", "\u2229"), ("cacute;", "\u0107")]

/-- The names that start with `d`. -/
def entitiesLowerD : List (String × String) :=
  [("dzigrarr;", "\u27ff"), ("dzcy;", "\u045f"), ("dwangle;", "\u29a6"), ("duhar;", "\u296f"),
    ("duarr;", "\u21f5"), ("dtrif;", "\u25be"), ("dtri;", "\u25bf"), ("dtdot;", "\u22f1"),
    ("dstrok;", "\u0111"), ("dsol;", "\u29f6"), ("dscy;", "\u0455"), ("dscr;", "𝒹"),
    ("drcrop;", "\u230c"), ("drcorn;", "\u231f"), ("drbkarow;", "\u2910"),
    ("downharpoonright;", "\u21c2"), ("downharpoonleft;", "\u21c3"),
    ("downdownarrows;", "\u21ca"), ("downarrow;", "\u2193"), ("doublebarwedge;", "\u2306"),
    ("dotsquare;", "\u22a1"), ("dotplus;", "\u2214"), ("dotminus;", "\u2238"),
    ("doteqdot;", "\u2251"), ("doteq;", "\u2250"), ("dot;", "\u02d9"), ("dopf;", "𝕕"),
    ("dollar;", "$"), ("dlcrop;", "\u230d"), ("dlcorn;", "\u231e"), ("djcy;", "\u0452"),
    ("divonx;", "\u22c7"), ("divideontimes;", "\u22c7"), ("divide;", "\u00f7"),
    ("divide", "\u00f7"), ("div;", "\u00f7"), ("disin;", "\u22f2"), ("digamma;", "\u03dd"),
    ("die;", "\u00a8"), ("diams;", "\u2666"), ("diamondsuit;", "\u2666"), ("diamond;", "\u22c4"),
    ("diam;", "\u22c4"), ("dharr;", "\u21c2"), ("dharl;", "\u21c3"), ("dfr;", "𝔡"),
    ("dfisht;", "\u297f"), ("demptyv;", "\u29b1"), ("delta;", "\u03b4"), ("deg;", "\u00b0"),
    ("deg", "\u00b0"), ("ddotseq;", "\u2a77"), ("ddarr;", "\u21ca"), ("ddagger;", "\u2021"),
    ("dd;", "\u2146"), ("dcy;", "\u0434"), ("dcaron;", "\u010f"), ("dblac;", "\u02dd"),
    ("dbkarow;", "\u290f"), ("dashv;", "\u22a3"), ("dash;", "\u2010"), ("darr;", "\u2193"),
    ("daleth;", "\u2138"), ("dagger;", "\u2020"), ("dHar;", "\u2965"), ("dArr;", "\u21d3")]

/-- The names that start with `e`. -/
def entitiesLowerE : List (String × String) :=
  [("exponentiale;", "\u2147"), ("expectation;", "\u2130"), ("exist;", "\u2203"), ("excl;", "!"),
    ("euro;", "\u20ac"), ("euml;", "\u00eb"), ("euml", "\u00eb"), ("eth;", "\u00f0"),
    ("eth", "\u00f0"), ("eta;", "\u03b7"), ("esim;", "\u2242"), ("esdot;", "\u2250"),
    ("escr;", "\u212f"), ("erarr;", "\u2971"), ("erDot;", "\u2253"), ("eqvparsl;", "\u29e5"),
    ("equivDD;", "\u2a78"), ("equiv;", "\u2261"), ("equest;", "\u225f"), ("equals;", "="),
    ("eqslantless;", "\u2a95"), ("eqslantgtr;", "\u2a96"), ("eqsim;", "\u2242"),
    ("eqcolon;", "\u2255"), ("eqcirc;", "\u2256"), ("epsiv;", "\u03f5"), ("epsilon;", "\u03b5"),
    ("epsi;", "\u03b5"), ("eplus;", "\u2a71"), ("eparsl;", "\u29e3"), ("epar;", "\u22d5"),
    ("eopf;", "𝕖"), ("eogon;", "\u0119"), ("ensp;", "\u2002"), ("eng;", "\u014b"),
    ("emsp;", "\u2003"), ("emsp14;", "\u2005"), ("emsp13;", "\u2004"), ("emptyv;", "\u2205"),
    ("emptyset;", "\u2205"), ("empty;", "\u2205"), ("emacr;", "\u0113"), ("elsdot;", "\u2a97"),
    ("els;", "\u2a95"), ("ell;", "\u2113"), ("elinters;", "\u23e7"), ("el;", "\u2a99"),
    ("egsdot;", "\u2a98"), ("egs;", "\u2a96"), ("egrave;", "\u00e8"), ("egrave", "\u00e8"),
    ("eg;", "\u2a9a"), ("efr;", "𝔢"), ("efDot;", "\u2252"), ("ee;", "\u2147"),
    ("edot;", "\u0117"), ("ecy;", "\u044d"), ("ecolon;", "\u2255"), ("ecirc;", "\u00ea"),
    ("ecirc", "\u00ea"), ("ecir;", "\u2256"), ("ecaron;", "\u011b"), ("easter;", "\u2a6e"),
    ("eacute;", "\u00e9"), ("eacute", "\u00e9"), ("eDot;", "\u2251"), ("eDDot;", "\u2a77")]

/-- The names that start with `f`. -/
def entitiesLowerF : List (String × String) :=
  [("fscr;", "𝒻"), ("frown;", "\u2322"), ("frasl;", "\u2044"), ("frac78;", "\u215e"),
    ("frac58;", "\u215d"), ("frac56;", "\u215a"), ("frac45;", "\u2158"), ("frac38;", "\u215c"),
    ("frac35;", "\u2157"), ("frac34;", "\u00be"), ("frac34", "\u00be"), ("frac25;", "\u2156"),
    ("frac23;", "\u2154"), ("frac18;", "\u215b"), ("frac16;", "\u2159"), ("frac15;", "\u2155"),
    ("frac14;", "\u00bc"), ("frac14", "\u00bc"), ("frac13;", "\u2153"), ("frac12;", "\u00bd"),
    ("frac12", "\u00bd"), ("fpartint;", "\u2a0d"), ("forkv;", "\u2ad9"), ("fork;", "\u22d4"),
    ("forall;", "\u2200"), ("fopf;", "𝕗"), ("fnof;", "\u0192"), ("fltns;", "\u25b1"),
    ("fllig;", "\ufb02"), ("flat;", "\u266d"), ("fjlig;", "fj"), ("filig;", "\ufb01"),
    ("ffr;", "𝔣"), ("ffllig;", "\ufb04"), ("fflig;", "\ufb00"), ("ffilig;", "\ufb03"),
    ("female;", "\u2640"), ("fcy;", "\u0444"), ("fallingdotseq;", "\u2252")]

/-- The names that start with `g`. -/
def entitiesLowerG : List (String × String) :=
  [("gvnE;", "\u2269\ufe00"), ("gvertneqq;", "\u2269\ufe00"), ("gtrsim;", "\u2273"),
    ("gtrless;", "\u2277"), ("gtreqqless;", "\u2a8c"), ("gtreqless;", "\u22db"),
    ("gtrdot;", "\u22d7"), ("gtrarr;", "\u2978"), ("gtrapprox;", "\u2a86"),
    ("gtquest;", "\u2a7c"), ("gtlPar;", "\u2995"), ("gtdot;", "\u22d7"), ("gtcir;", "\u2a7a"),
    ("gtcc;", "\u2aa7"), ("gt;", ">"), ("gt", ">"), ("gsiml;", "\u2a90"), ("gsime;", "\u2a8e"),
    ("gsim;", "\u2273"), ("gscr;", "\u210a"), ("grave;", "`"), ("gopf;", "𝕘"),
    ("gnsim;", "\u22e7"), ("gneqq;", "\u2269"), ("gneq;", "\u2a88"), ("gne;", "\u2a88"),
    ("gnapprox;", "\u2a8a"), ("gnap;", "\u2a8a"), ("gnE;", "\u2269"), ("glj;", "\u2aa4"),
    ("gla;", "\u2aa5"), ("glE;", "\u2a92"), ("gl;", "\u2277"), ("gjcy;", "\u0453"),
    ("gimel;", "\u2137"), ("ggg;", "\u22d9"), ("gg;", "\u226b"), ("gfr;", "𝔤"),
    ("gesles;", "\u2a94"), ("gesl;", "\u22db\ufe00"), ("gesdotol;", "\u2a84"),
    ("gesdoto;", "\u2a82"), ("gesdot;", "\u2a80"), ("gescc;", "\u2aa9"), ("ges;", "\u2a7e"),
    ("geqslant;", "\u2a7e"), ("geqq;", "\u2267"), ("geq;", "\u2265"), ("gel;", "\u22db"),
    ("ge;", "\u2265"), ("gdot;", "\u0121"), ("gcy;", "\u0433"), ("gcirc;", "\u011d"),
    ("gbreve;", "\u011f"), ("gap;", "\u2a86"), ("gammad;", "\u03dd"), ("gamma;", "\u03b3"),
    ("gacute;", "\u01f5"), ("gEl;", "\u2a8c"), ("gE;", "\u2267")]

/-- The names that start with `h`. -/
def entitiesLowerH : List (String × String) :=
  [("hyphen;", "\u2010"), ("hybull;", "\u2043"), ("hstrok;", "\u0127"), ("hslash;", "\u210f"),
    ("hscr;", "𝒽"), ("horbar;", "\u2015"), ("hopf;", "𝕙"), ("hookrightarrow;", "\u21aa"),
    ("hookleftarrow;", "\u21a9"), ("homtht;", "\u223b"), ("hoarr;", "\u21ff"),
    ("hkswarow;", "\u2926"), ("hksearow;", "\u2925"), ("hfr;", "𝔥"), ("hercon;", "\u22b9"),
    ("hellip;", "\u2026"), ("heartsuit;", "\u2665"), ("hearts;", "\u2665"), ("hcirc;", "\u0125"),
    ("hbar;", "\u210f"), ("harrw;", "\u21ad"), ("harrcir;", "\u2948"), ("harr;", "\u2194"),
    ("hardcy;", "\u044a"), ("hamilt;", "\u210b"), ("half;", "\u00bd"), ("hairsp;", "\u200a"),
    ("hArr;", "\u21d4")]

/-- The names that start with `i`. -/
def entitiesLowerI : List (String × String) :=
  [("iuml;", "\u00ef"), ("iuml", "\u00ef"), ("iukcy;", "\u0456"), ("itilde;", "\u0129"),
    ("it;", "\u2062"), ("isinv;", "\u2208"), ("isinsv;", "\u22f3"), ("isins;", "\u22f4"),
    ("isindot;", "\u22f5"), ("isinE;", "\u22f9"), ("isin;", "\u2208"), ("iscr;", "𝒾"),
    ("iquest;", "\u00bf"), ("iquest", "\u00bf"), ("iprod;", "\u2a3c"), ("iota;", "\u03b9"),
    ("iopf;", "𝕚"), ("iogon;", "\u012f"), ("iocy;", "\u0451"), ("intprod;", "\u2a3c"),
    ("intlarhk;", "\u2a17"), ("intercal;", "\u22ba"), ("integers;", "\u2124"),
    ("intcal;", "\u22ba"), ("int;", "\u222b"), ("inodot;", "\u0131"), ("infintie;", "\u29dd"),
    ("infin;", "\u221e"), ("incare;", "\u2105"), ("in;", "\u2208"), ("imped;", "\u01b5"),
    ("imof;", "\u22b7"), ("imath;", "\u0131"), ("imagpart;", "\u2111"), ("imagline;", "\u2110"),
    ("image;", "\u2111"), ("imacr;", "\u012b"), ("ijlig;", "\u0133"), ("iiota;", "\u2129"),
    ("iinfin;", "\u29dc"), ("iiint;", "\u222d"), ("iiiint;", "\u2a0c"), ("ii;", "\u2148"),
    ("igrave;", "\u00ec"), ("igrave", "\u00ec"), ("ifr;", "𝔦"), ("iff;", "\u21d4"),
    ("iexcl;", "\u00a1"), ("iexcl", "\u00a1"), ("iecy;", "\u0435"), ("icy;", "\u0438"),
    ("icirc;", "\u00ee"), ("icirc", "\u00ee"), ("ic;", "\u2063"), ("iacute;", "\u00ed"),
    ("iacute", "\u00ed")]

/-- The names that start with `j`. -/
def entitiesLowerJ : List (String × String) :=
  [("jukcy;", "\u0454"), ("jsercy;", "\u0458"), ("jscr;", "𝒿"), ("jopf;", "𝕛"),
    ("jmath;", "\u0237"), ("jfr;", "𝔧"), ("jcy;", "\u0439"), ("jcirc;", "\u0135")]

/-- The names that start with `k`. -/
def entitiesLowerK : List (String × String) :=
  [("kscr;", "𝓀"), ("kopf;", "𝕜"), ("kjcy;", "\u045c"), ("khcy;", "\u0445"),
    ("kgreen;", "\u0138"), ("kfr;", "𝔨"), ("kcy;", "\u043a"), ("kcedil;", "\u0137"),
    ("kappav;", "\u03f0"), ("kappa;", "\u03ba")]

/-- The names that start with `l`. -/
def entitiesLowerL : List (String × String) :=
  [("lvnE;", "\u2268\ufe00"), ("lvertneqq;", "\u2268\ufe00"), ("luruhar;", "\u2966"),
    ("lurdshar;", "\u294a"), ("ltrif;", "\u25c2"), ("ltrie;", "\u22b4"), ("ltri;", "\u25c3"),
    ("ltrPar;", "\u2996"), ("ltquest;", "\u2a7b"), ("ltlarr;", "\u2976"), ("ltimes;", "\u22c9"),
    ("lthree;", "\u22cb"), ("ltdot;", "\u22d6"), ("ltcir;", "\u2a79"), ("ltcc;", "\u2aa6"),
    ("lt;", "<"), ("lt", "<"), ("lstrok;", "\u0142"), ("lsquor;", "\u201a"), ("lsquo;", "\u2018"),
    ("lsqb;", "["), ("lsimg;", "\u2a8f"), ("lsime;", "\u2a8d"), ("lsim;", "\u2272"),
    ("lsh;", "\u21b0"), ("lscr;", "𝓁"), ("lsaquo;", "\u2039"), ("lrtri;", "\u22bf"),
    ("lrm;", "\u200e"), ("lrhard;", "\u296d"), ("lrhar;", "\u21cb"), ("lrcorner;", "\u231f"),
    ("lrarr;", "\u21c6"), ("lparlt;", "\u2993"), ("lpar;", "("), ("lozf;", "\u29eb"),
    ("lozenge;", "\u25ca"), ("loz;", "\u25ca"), ("lowbar;", "_"), ("lowast;", "\u2217"),
    ("lotimes;", "\u2a34"), ("loplus;", "\u2a2d"), ("lopf;", "𝕝"), ("lopar;", "\u2985"),
    ("looparrowright;", "\u21ac"), ("looparrowleft;", "\u21ab"), ("longrightarrow;", "\u27f6"),
    ("longmapsto;", "\u27fc"), ("longleftrightarrow;", "\u27f7"), ("longleftarrow;", "\u27f5"),
    ("lobrk;", "\u27e6"), ("loarr;", "\u21fd"), ("loang;", "\u27ec"), ("lnsim;", "\u22e6"),
    ("lneqq;", "\u2268"), ("lneq;", "\u2a87"), ("lne;", "\u2a87"), ("lnapprox;", "\u2a89"),
    ("lnap;", "\u2a89"), ("lnE;", "\u2268"), ("lmoustache;", "\u23b0"), ("lmoust;", "\u23b0"),
    ("lmidot;", "\u0140"), ("lltri;", "\u25fa"), ("llhard;", "\u296b"), ("llcorner;", "\u231e"),
    ("llarr;", "\u21c7"), ("ll;", "\u226a"), ("ljcy;", "\u0459"), ("lhblk;", "\u2584"),
    ("lharul;", "\u296a"), ("lharu;", "\u21bc"), ("lhard;", "\u21bd"), ("lgE;", "\u2a91"),
    ("lg;", "\u2276"), ("lfr;", "𝔩"), ("lfloor;", "\u230a"), ("lfisht;", "\u297c"),
    ("lesssim;", "\u2272"), ("lessgtr;", "\u2276"), ("lesseqqgtr;", "\u2a8b"),
    ("lesseqgtr;", "\u22da"), ("lessdot;", "\u22d6"), ("lessapprox;", "\u2a85"),
    ("lesges;", "\u2a93"), ("lesg;", "\u22da\ufe00"), ("lesdotor;", "\u2a83"),
    ("lesdoto;", "\u2a81"), ("lesdot;", "\u2a7f"), ("lescc;", "\u2aa8"), ("les;", "\u2a7d"),
    ("leqslant;", "\u2a7d"), ("leqq;", "\u2266"), ("leq;", "\u2264"), ("leg;", "\u22da"),
    ("leftthreetimes;", "\u22cb"), ("leftrightsquigarrow;", "\u21ad"),
    ("leftrightharpoons;", "\u21cb"), ("leftrightarrows;", "\u21c6"),
    ("leftrightarrow;", "\u2194"), ("leftleftarrows;", "\u21c7"), ("leftharpoonup;", "\u21bc"),
    ("leftharpoondown;", "\u21bd"), ("leftarrowtail;", "\u21a2"), ("leftarrow;", "\u2190"),
    ("le;", "\u2264"), ("ldsh;", "\u21b2"), ("ldrushar;", "\u294b"), ("ldrdhar;", "\u2967"),
    ("ldquor;", "\u201e"), ("ldquo;", "\u201c"), ("ldca;", "\u2936"), ("lcy;", "\u043b"),
    ("lcub;", "\x7b"), ("lceil;", "\u2308"), ("lcedil;", "\u013c"), ("lcaron;", "\u013e"),
    ("lbrkslu;", "\u298d"), ("lbrksld;", "\u298f"), ("lbrke;", "\u298b"), ("lbrack;", "["),
    ("lbrace;", "\x7b"), ("lbbrk;", "\u2772"), ("lbarr;", "\u290c"), ("lates;", "\u2aad\ufe00"),
    ("late;", "\u2aad"), ("latail;", "\u2919"), ("lat;", "\u2aab"), ("larrtl;", "\u21a2"),
    ("larrsim;", "\u2973"), ("larrpl;", "\u2939"), ("larrlp;", "\u21ab"), ("larrhk;", "\u21a9"),
    ("larrfs;", "\u291d"), ("larrbfs;", "\u291f"), ("larrb;", "\u21e4"), ("larr;", "\u2190"),
    ("laquo;", "\u00ab"), ("laquo", "\u00ab"), ("lap;", "\u2a85"), ("langle;", "\u27e8"),
    ("langd;", "\u2991"), ("lang;", "\u27e8"), ("lambda;", "\u03bb"), ("lagran;", "\u2112"),
    ("laemptyv;", "\u29b4"), ("lacute;", "\u013a"), ("lHar;", "\u2962"), ("lEg;", "\u2a8b"),
    ("lE;", "\u2266"), ("lBarr;", "\u290e"), ("lAtail;", "\u291b"), ("lArr;", "\u21d0"),
    ("lAarr;", "\u21da")]

/-- The names that start with `m`. -/
def entitiesLowerM : List (String × String) :=
  [("mumap;", "\u22b8"), ("multimap;", "\u22b8"), ("mu;", "\u03bc"), ("mstpos;", "\u223e"),
    ("mscr;", "𝓂"), ("mp;", "\u2213"), ("mopf;", "𝕞"), ("models;", "\u22a7"),
    ("mnplus;", "\u2213"), ("mldr;", "\u2026"), ("mlcp;", "\u2adb"), ("minusdu;", "\u2a2a"),
    ("minusd;", "\u2238"), ("minusb;", "\u229f"), ("minus;", "\u2212"), ("middot;", "\u00b7"),
    ("middot", "\u00b7"), ("midcir;", "\u2af0"), ("midast;", "*"), ("mid;", "\u2223"),
    ("micro;", "\u00b5"), ("micro", "\u00b5"), ("mho;", "\u2127"), ("mfr;", "𝔪"),
    ("measuredangle;", "\u2221"), ("mdash;", "\u2014"), ("mcy;", "\u043c"), ("mcomma;", "\u2a29"),
    ("marker;", "\u25ae"), ("mapstoup;", "\u21a5"), ("mapstoleft;", "\u21a4"),
    ("mapstodown;", "\u21a7"), ("mapsto;", "\u21a6"), ("map;", "\u21a6"), ("maltese;", "\u2720"),
    ("malt;", "\u2720"), ("male;", "\u2642"), ("macr;", "\u00af"), ("macr", "\u00af"),
    ("mDDot;", "\u223a")]

/-- The names that start with `n`. -/
def entitiesLowerN : List (String × String) :=
  [("nwnear;", "\u2927"), ("nwarrow;", "\u2196"), ("nwarr;", "\u2196"), ("nwarhk;", "\u2923"),
    ("nwArr;", "\u21d6"), ("nvsim;", "\u223c\u20d2"), ("nvrtrie;", "\u22b5\u20d2"),
    ("nvrArr;", "\u2903"), ("nvltrie;", "\u22b4\u20d2"), ("nvlt;", "<\u20d2"),
    ("nvle;", "\u2264\u20d2"), ("nvlArr;", "\u2902"), ("nvinfin;", "\u29de"),
    ("nvgt;", ">\u20d2"), ("nvge;", "\u2265\u20d2"), ("nvdash;", "\u22ac"),
    ("nvap;", "\u224d\u20d2"), ("nvHarr;", "\u2904"), ("nvDash;", "\u22ad"), ("numsp;", "\u2007"),
    ("numero;", "\u2116"), ("num;", "#"), ("nu;", "\u03bd"), ("ntrianglerighteq;", "\u22ed"),
    ("ntriangleright;", "\u22eb"), ("ntrianglelefteq;", "\u22ec"), ("ntriangleleft;", "\u22ea"),
    ("ntlg;", "\u2278"), ("ntilde;", "\u00f1"), ("ntilde", "\u00f1"), ("ntgl;", "\u2279"),
    ("nsupseteqq;", "\u2ac6\u0338"), ("nsupseteq;", "\u2289"), ("nsupset;", "\u2283\u20d2"),
    ("nsupe;", "\u2289"), ("nsupE;", "\u2ac6\u0338"), ("nsup;", "\u2285"),
    ("nsucceq;", "\u2ab0\u0338"), ("nsucc;", "\u2281"), ("nsubseteqq;", "\u2ac5\u0338"),
    ("nsubseteq;", "\u2288"), ("nsubset;", "\u2282\u20d2"), ("nsube;", "\u2288"),
    ("nsubE;", "\u2ac5\u0338"), ("nsub;", "\u2284"), ("nsqsupe;", "\u22e3"),
    ("nsqsube;", "\u22e2"), ("nspar;", "\u2226"), ("nsmid;", "\u2224"), ("nsimeq;", "\u2244"),
    ("nsime;", "\u2244"), ("nsim;", "\u2241"), ("nshortparallel;", "\u2226"),
    ("nshortmid;", "\u2224"), ("nscr;", "𝓃"), ("nsce;", "\u2ab0\u0338"), ("nsccue;", "\u22e1"),
    ("nsc;", "\u2281"), ("nrtrie;", "\u22ed"), ("nrtri;", "\u22eb"), ("nrightarrow;", "\u219b"),
    ("nrarrw;", "\u219d\u0338"), ("nrarrc;", "\u2933\u0338"), ("nrarr;", "\u219b"),
    ("nrArr;", "\u21cf"), ("npreceq;", "\u2aaf\u0338"), ("nprec;", "\u2280"),
    ("npre;", "\u2aaf\u0338"), ("nprcue;", "\u22e0"), ("npr;", "\u2280"), ("npolint;", "\u2a14"),
    ("npart;", "\u2202\u0338"), ("nparsl;", "\u2afd\u20e5"), ("nparallel;", "\u2226"),
    ("npar;", "\u2226"), ("notnivc;", "\u22fd"), ("notnivb;", "\u22fe"), ("notniva;", "\u220c"),
    ("notni;", "\u220c"), ("notinvc;", "\u22f6"), ("notinvb;", "\u22f7"), ("notinva;", "\u2209"),
    ("notindot;", "\u22f5\u0338"), ("notinE;", "\u22f9\u0338"), ("notin;", "\u2209"),
    ("not;", "\u00ac"), ("not", "\u00ac"), ("nopf;", "𝕟"), ("nmid;", "\u2224"),
    ("nltrie;", "\u22ec"), ("nltri;", "\u22ea"), ("nlt;", "\u226e"), ("nlsim;", "\u2274"),
    ("nless;", "\u226e"), ("nles;", "\u2a7d\u0338"), ("nleqslant;", "\u2a7d\u0338"),
    ("nleqq;", "\u2266\u0338"), ("nleq;", "\u2270"), ("nleftrightarrow;", "\u21ae"),
    ("nleftarrow;", "\u219a"), ("nle;", "\u2270"), ("nldr;", "\u2025"), ("nlarr;", "\u219a"),
    ("nlE;", "\u2266\u0338"), ("nlArr;", "\u21cd"), ("njcy;", "\u045a"), ("niv;", "\u220b"),
    ("nisd;", "\u22fa"), ("nis;", "\u22fc"), ("ni;", "\u220b"), ("nhpar;", "\u2af2"),
    ("nharr;", "\u21ae"), ("nhArr;", "\u21ce"), ("ngtr;", "\u226f"), ("ngt;", "\u226f"),
    ("ngsim;", "\u2275"), ("nges;", "\u2a7e\u0338"), ("ngeqslant;", "\u2a7e\u0338"),
    ("ngeqq;", "\u2267\u0338"), ("ngeq;", "\u2271"), ("nge;", "\u2271"), ("ngE;", "\u2267\u0338"),
    ("nfr;", "𝔫"), ("nexists;", "\u2204"), ("nexist;", "\u2204"), ("nesim;", "\u2242\u0338"),
    ("nesear;", "\u2928"), ("nequiv;", "\u2262"), ("nedot;", "\u2250\u0338"),
    ("nearrow;", "\u2197"), ("nearr;", "\u2197"), ("nearhk;", "\u2924"), ("neArr;", "\u21d7"),
    ("ne;", "\u2260"), ("ndash;", "\u2013"), ("ncy;", "\u043d"), ("ncup;", "\u2a42"),
    ("ncongdot;", "\u2a6d\u0338"), ("ncong;", "\u2247"), ("ncedil;", "\u0146"),
    ("ncaron;", "\u0148"), ("ncap;", "\u2a43"), ("nbumpe;", "\u224f\u0338"),
    ("nbump;", "\u224e\u0338"), ("nbsp;", "\u00a0"), ("nbsp", "\u00a0"), ("naturals;", "\u2115"),
    ("natural;", "\u266e"), ("natur;", "\u266e"), ("napprox;", "\u2249"), ("napos;", "\u0149"),
    ("napid;", "\u224b\u0338"), ("napE;", "\u2a70\u0338"), ("nap;", "\u2249"),
    ("nang;", "\u2220\u20d2"), ("nacute;", "\u0144"), ("nabla;", "\u2207"), ("nVdash;", "\u22ae"),
    ("nVDash;", "\u22af"), ("nRightarrow;", "\u21cf"), ("nLtv;", "\u226a\u0338"),
    ("nLt;", "\u226a\u20d2"), ("nLl;", "\u22d8\u0338"), ("nLeftrightarrow;", "\u21ce"),
    ("nLeftarrow;", "\u21cd"), ("nGtv;", "\u226b\u0338"), ("nGt;", "\u226b\u20d2"),
    ("nGg;", "\u22d9\u0338")]

/-- The names that start with `o`. -/
def entitiesLowerO : List (String × String) :=
  [("ovbar;", "\u233d"), ("ouml;", "\u00f6"), ("ouml", "\u00f6"), ("otimesas;", "\u2a36"),
    ("otimes;", "\u2297"), ("otilde;", "\u00f5"), ("otilde", "\u00f5"), ("osol;", "\u2298"),
    ("oslash;", "\u00f8"), ("oslash", "\u00f8"), ("oscr;", "\u2134"), ("orv;", "\u2a5b"),
    ("orslope;", "\u2a57"), ("oror;", "\u2a56"), ("origof;", "\u22b6"), ("ordm;", "\u00ba"),
    ("ordm", "\u00ba"), ("ordf;", "\u00aa"), ("ordf", "\u00aa"), ("orderof;", "\u2134"),
    ("order;", "\u2134"), ("ord;", "\u2a5d"), ("orarr;", "\u21bb"), ("or;", "\u2228"),
    ("oplus;", "\u2295"), ("operp;", "\u29b9"), ("opar;", "\u29b7"), ("oopf;", "𝕠"),
    ("ominus;", "\u2296"), ("omid;", "\u29b6"), ("omicron;", "\u03bf"), ("omega;", "\u03c9"),
    ("omacr;", "\u014d"), ("olt;", "\u29c0"), ("oline;", "\u203e"), ("olcross;", "\u29bb"),
    ("olcir;", "\u29be"), ("olarr;", "\u21ba"), ("oint;", "\u222e"), ("ohm;", "\u03a9"),
    ("ohbar;", "\u29b5"), ("ogt;", "\u29c1"), ("ograve;", "\u00f2"), ("ograve", "\u00f2"),
    ("ogon;", "\u02db"), ("ofr;", "𝔬"), ("ofcir;", "\u29bf"), ("oelig;", "\u0153"),
    ("odsold;", "\u29bc"), ("odot;", "\u2299"), ("odiv;", "\u2a38"), ("odblac;", "\u0151"),
    ("odash;", "\u229d"), ("ocy;", "\u043e"), ("ocirc;", "\u00f4"), ("ocirc", "\u00f4"),
    ("ocir;", "\u229a"), ("oast;", "\u229b"), ("oacute;", "\u00f3"), ("oacute", "\u00f3"),
    ("oS;", "\u24c8")]

/-- The names that start with `p`. -/
def entitiesLowerP : List (String × String) :=
  [("puncsp;", "\u2008"), ("psi;", "\u03c8"), ("pscr;", "𝓅"), ("prurel;", "\u22b0"),
    ("prsim;", "\u227e"), ("propto;", "\u221d"), ("prop;", "\u221d"), ("profsurf;", "\u2313"),
    ("profline;", "\u2312"), ("profalar;", "\u232e"), ("prod;", "\u220f"), ("prnsim;", "\u22e8"),
    ("prnap;", "\u2ab9"), ("prnE;", "\u2ab5"), ("primes;", "\u2119"), ("prime;", "\u2032"),
    ("precsim;", "\u227e"), ("precnsim;", "\u22e8"), ("precneqq;", "\u2ab5"),
    ("precnapprox;", "\u2ab9"), ("preceq;", "\u2aaf"), ("preccurlyeq;", "\u227c"),
    ("precapprox;", "\u2ab7"), ("prec;", "\u227a"), ("pre;", "\u2aaf"), ("prcue;", "\u227c"),
    ("prap;", "\u2ab7"), ("prE;", "\u2ab3"), ("pr;", "\u227a"), ("pound;", "\u00a3"),
    ("pound", "\u00a3"), ("popf;", "𝕡"), ("pointint;", "\u2a15"), ("pm;", "\u00b1"),
    ("plustwo;", "\u2a27"), ("plussim;", "\u2a26"), ("plusmn;", "\u00b1"), ("plusmn", "\u00b1"),
    ("pluse;", "\u2a72"), ("plusdu;", "\u2a25"), ("plusdo;", "\u2214"), ("pluscir;", "\u2a22"),
    ("plusb;", "\u229e"), ("plusacir;", "\u2a23"), ("plus;", "+"), ("plankv;", "\u210f"),
    ("planckh;", "\u210e"), ("planck;", "\u210f"), ("piv;", "\u03d6"), ("pitchfork;", "\u22d4"),
    ("pi;", "\u03c0"), ("phone;", "\u260e"), ("phmmat;", "\u2133"), ("phiv;", "\u03d5"),
    ("phi;", "\u03c6"), ("pfr;", "𝔭"), ("pertenk;", "\u2031"), ("perp;", "\u22a5"),
    ("permil;", "\u2030"), ("period;", "."), ("percnt;", "%"), ("pcy;", "\u043f"),
    ("part;", "\u2202"), ("parsl;", "\u2afd"), ("parsim;", "\u2af3"), ("parallel;", "\u2225"),
    ("para;", "\u00b6"), ("para", "\u00b6"), ("par;", "\u2225")]

/-- The names that start with `q`. -/
def entitiesLowerQ : List (String × String) :=
  [("quot;", "\""), ("quot", "\""), ("questeq;", "\u225f"), ("quest;", "?"),
    ("quatint;", "\u2a16"), ("quaternions;", "\u210d"), ("qscr;", "𝓆"), ("qprime;", "\u2057"),
    ("qopf;", "𝕢"), ("qint;", "\u2a0c"), ("qfr;", "𝔮")]

/-- The names that start with `r`. -/
def entitiesLowerR : List (String × String) :=
  [("rx;", "\u211e"), ("ruluhar;", "\u2968"), ("rtriltri;", "\u29ce"), ("rtrif;", "\u25b8"),
    ("rtrie;", "\u22b5"), ("rtri;", "\u25b9"), ("rtimes;", "\u22ca"), ("rthree;", "\u22cc"),
    ("rsquor;", "\u2019"), ("rsquo;", "\u2019"), ("rsqb;", "]"), ("rsh;", "\u21b1"),
    ("rscr;", "𝓇"), ("rsaquo;", "\u203a"), ("rrarr;", "\u21c9"), ("rppolint;", "\u2a12"),
    ("rpargt;", "\u2994"), ("rpar;", ")"), ("rotimes;", "\u2a35"), ("roplus;", "\u2a2e"),
    ("ropf;", "𝕣"), ("ropar;", "\u2986"), ("robrk;", "\u27e7"), ("roarr;", "\u21fe"),
    ("roang;", "\u27ed"), ("rnmid;", "\u2aee"), ("rmoustache;", "\u23b1"), ("rmoust;", "\u23b1"),
    ("rlm;", "\u200f"), ("rlhar;", "\u21cc"), ("rlarr;", "\u21c4"), ("risingdotseq;", "\u2253"),
    ("ring;", "\u02da"), ("rightthreetimes;", "\u22cc"), ("rightsquigarrow;", "\u219d"),
    ("rightrightarrows;", "\u21c9"), ("rightleftharpoons;", "\u21cc"),
    ("rightleftarrows;", "\u21c4"), ("rightharpoonup;", "\u21c0"),
    ("rightharpoondown;", "\u21c1"), ("rightarrowtail;", "\u21a3"), ("rightarrow;", "\u2192"),
    ("rhov;", "\u03f1"), ("rho;", "\u03c1"), ("rharul;", "\u296c"), ("rharu;", "\u21c0"),
    ("rhard;", "\u21c1"), ("rfr;", "𝔯"), ("rfloor;", "\u230b"), ("rfisht;", "\u297d"),
    ("reg;", "\u00ae"), ("reg", "\u00ae"), ("rect;", "\u25ad"), ("reals;", "\u211d"),
    ("realpart;", "\u211c"), ("realine;", "\u211b"), ("real;", "\u211c"), ("rdsh;", "\u21b3"),
    ("rdquor;", "\u201d"), ("rdquo;", "\u201d"), ("rdldhar;", "\u2969"), ("rdca;", "\u2937"),
    ("rcy;", "\u0440"), ("rcub;", "\x7d"), ("rceil;", "\u2309"), ("rcedil;", "\u0157"),
    ("rcaron;", "\u0159"), ("rbrkslu;", "\u2990"), ("rbrksld;", "\u298e"), ("rbrke;", "\u298c"),
    ("rbrack;", "]"), ("rbrace;", "\x7d"), ("rbbrk;", "\u2773"), ("rbarr;", "\u290d"),
    ("rationals;", "\u211a"), ("ratio;", "\u2236"), ("ratail;", "\u291a"), ("rarrw;", "\u219d"),
    ("rarrtl;", "\u21a3"), ("rarrsim;", "\u2974"), ("rarrpl;", "\u2945"), ("rarrlp;", "\u21ac"),
    ("rarrhk;", "\u21aa"), ("rarrfs;", "\u291e"), ("rarrc;", "\u2933"), ("rarrbfs;", "\u2920"),
    ("rarrb;", "\u21e5"), ("rarrap;", "\u2975"), ("rarr;", "\u2192"), ("raquo;", "\u00bb"),
    ("raquo", "\u00bb"), ("rangle;", "\u27e9"), ("range;", "\u29a5"), ("rangd;", "\u2992"),
    ("rang;", "\u27e9"), ("raemptyv;", "\u29b3"), ("radic;", "\u221a"), ("racute;", "\u0155"),
    ("race;", "\u223d\u0331"), ("rHar;", "\u2964"), ("rBarr;", "\u290f"), ("rAtail;", "\u291c"),
    ("rArr;", "\u21d2"), ("rAarr;", "\u21db")]

/-- The names that start with `s`. -/
def entitiesLowerS : List (String × String) :=
  [("szlig;", "\u00df"), ("szlig", "\u00df"), ("swnwar;", "\u292a"), ("swarrow;", "\u2199"),
    ("swarr;", "\u2199"), ("swarhk;", "\u2926"), ("swArr;", "\u21d9"), ("supsup;", "\u2ad6"),
    ("supsub;", "\u2ad4"), ("supsim;", "\u2ac8"), ("supsetneqq;", "\u2acc"),
    ("supsetneq;", "\u228b"), ("supseteqq;", "\u2ac6"), ("supseteq;", "\u2287"),
    ("supset;", "\u2283"), ("supplus;", "\u2ac0"), ("supne;", "\u228b"), ("supnE;", "\u2acc"),
    ("supmult;", "\u2ac2"), ("suplarr;", "\u297b"), ("suphsub;", "\u2ad7"),
    ("suphsol;", "\u27c9"), ("supedot;", "\u2ac4"), ("supe;", "\u2287"), ("supdsub;", "\u2ad8"),
    ("supdot;", "\u2abe"), ("supE;", "\u2ac6"), ("sup;", "\u2283"), ("sup3;", "\u00b3"),
    ("sup3", "\u00b3"), ("sup2;", "\u00b2"), ("sup2", "\u00b2"), ("sup1;", "\u00b9"),
    ("sup1", "\u00b9"), ("sung;", "\u266a"), ("sum;", "\u2211"), ("succsim;", "\u227f"),
    ("succnsim;", "\u22e9"), ("succneqq;", "\u2ab6"), ("succnapprox;", "\u2aba"),
    ("succeq;", "\u2ab0"), ("succcurlyeq;", "\u227d"), ("succapprox;", "\u2ab8"),
    ("succ;", "\u227b"), ("subsup;", "\u2ad3"), ("subsub;", "\u2ad5"), ("subsim;", "\u2ac7"),
    ("subsetneqq;", "\u2acb"), ("subsetneq;", "\u228a"), ("subseteqq;", "\u2ac5"),
    ("subseteq;", "\u2286"), ("subset;", "\u2282"), ("subrarr;", "\u2979"),
    ("subplus;", "\u2abf"), ("subne;", "\u228a"), ("subnE;", "\u2acb"), ("submult;", "\u2ac1"),
    ("subedot;", "\u2ac3"), ("sube;", "\u2286"), ("subdot;", "\u2abd"), ("subE;", "\u2ac5"),
    ("sub;", "\u2282"), ("strns;", "\u00af"), ("straightphi;", "\u03d5"),
    ("straightepsilon;", "\u03f5"), ("starf;", "\u2605"), ("star;", "\u2606"),
    ("sstarf;", "\u22c6"), ("ssmile;", "\u2323"), ("ssetmn;", "\u2216"), ("sscr;", "𝓈"),
    ("srarr;", "\u2192"), ("squf;", "\u25aa"), ("squarf;", "\u25aa"), ("square;", "\u25a1"),
    ("squ;", "\u25a1"), ("sqsupseteq;", "\u2292"), ("sqsupset;", "\u2290"), ("sqsupe;", "\u2292"),
    ("sqsup;", "\u2290"), ("sqsubseteq;", "\u2291"), ("sqsubset;", "\u228f"),
    ("sqsube;", "\u2291"), ("sqsub;", "\u228f"), ("sqcups;", "\u2294\ufe00"),
    ("sqcup;", "\u2294"), ("sqcaps;", "\u2293\ufe00"), ("sqcap;", "\u2293"), ("spar;", "\u2225"),
    ("spadesuit;", "\u2660"), ("spades;", "\u2660"), ("sopf;", "𝕤"), ("solbar;", "\u233f"),
    ("solb;", "\u29c4"), ("sol;", "/"), ("softcy;", "\u044c"), ("smtes;", "\u2aac\ufe00"),
    ("smte;", "\u2aac"), ("smt;", "\u2aaa"), ("smile;", "\u2323"), ("smid;", "\u2223"),
    ("smeparsl;", "\u29e4"), ("smashp;", "\u2a33"), ("smallsetminus;", "\u2216"),
    ("slarr;", "\u2190"), ("simrarr;", "\u2972"), ("simplus;", "\u2a24"), ("simne;", "\u2246"),
    ("simlE;", "\u2a9f"), ("siml;", "\u2a9d"), ("simgE;", "\u2aa0"), ("simg;", "\u2a9e"),
    ("simeq;", "\u2243"), ("sime;", "\u2243"), ("simdot;", "\u2a6a"), ("sim;", "\u223c"),
    ("sigmav;", "\u03c2"), ("sigmaf;", "\u03c2"), ("sigma;", "\u03c3"), ("shy;", "\u00ad"),
    ("shy", "\u00ad"), ("shortparallel;", "\u2225"), ("shortmid;", "\u2223"), ("shcy;", "\u0448"),
    ("shchcy;", "\u0449"), ("sharp;", "\u266f"), ("sfrown;", "\u2322"), ("sfr;", "𝔰"),
    ("sext;", "\u2736"), ("setmn;", "\u2216"), ("setminus;", "\u2216"), ("seswar;", "\u2929"),
    ("semi;", ";"), ("sect;", "\u00a7"), ("sect", "\u00a7"), ("searrow;", "\u2198"),
    ("searr;", "\u2198"), ("searhk;", "\u2925"), ("seArr;", "\u21d8"), ("sdote;", "\u2a66"),
    ("sdotb;", "\u22a1"), ("sdot;", "\u22c5"), ("scy;", "\u0441"), ("scsim;", "\u227f"),
    ("scpolint;", "\u2a13"), ("scnsim;", "\u22e9"), ("scnap;", "\u2aba"), ("scnE;", "\u2ab6"),
    ("scirc;", "\u015d"), ("scedil;", "\u015f"), ("sce;", "\u2ab0"), ("sccue;", "\u227d"),
    ("scaron;", "\u0161"), ("scap;", "\u2ab8"), ("scE;", "\u2ab4"), ("sc;", "\u227b"),
    ("sbquo;", "\u201a"), ("sacute;", "\u015b")]

/-- The names that start with `t`. -/
def entitiesLowerT : List (String × String) :=
  [("twoheadrightarrow;", "\u21a0"), ("twoheadleftarrow;", "\u219e"), ("twixt;", "\u226c"),
    ("tstrok;", "\u0167"), ("tshcy;", "\u045b"), ("tscy;", "\u0446"), ("tscr;", "𝓉"),
    ("trpezium;", "\u23e2"), ("tritime;", "\u2a3b"), ("trisb;", "\u29cd"), ("triplus;", "\u2a39"),
    ("triminus;", "\u2a3a"), ("trie;", "\u225c"), ("tridot;", "\u25ec"),
    ("trianglerighteq;", "\u22b5"), ("triangleright;", "\u25b9"), ("triangleq;", "\u225c"),
    ("trianglelefteq;", "\u22b4"), ("triangleleft;", "\u25c3"), ("triangledown;", "\u25bf"),
    ("triangle;", "\u25b5"), ("trade;", "\u2122"), ("tprime;", "\u2034"), ("tosa;", "\u2929"),
    ("topfork;", "\u2ada"), ("topf;", "𝕥"), ("topcir;", "\u2af1"), ("topbot;", "\u2336"),
    ("top;", "\u22a4"), ("toea;", "\u2928"), ("tint;", "\u222d"), ("timesd;", "\u2a30"),
    ("timesbar;", "\u2a31"), ("timesb;", "\u22a0"), ("times;", "\u00d7"), ("times", "\u00d7"),
    ("tilde;", "\u02dc"), ("thorn;", "\u00fe"), ("thorn", "\u00fe"), ("thksim;", "\u223c"),
    ("thkap;", "\u2248"), ("thinsp;", "\u2009"), ("thicksim;", "\u223c"),
    ("thickapprox;", "\u2248"), ("thetav;", "\u03d1"), ("thetasym;", "\u03d1"),
    ("theta;", "\u03b8"), ("therefore;", "\u2234"), ("there4;", "\u2234"), ("tfr;", "𝔱"),
    ("telrec;", "\u2315"), ("tdot;", "\u20db"), ("tcy;", "\u0442"), ("tcedil;", "\u0163"),
    ("tcaron;", "\u0165"), ("tbrk;", "\u23b4"), ("tau;", "\u03c4"), ("target;", "\u2316")]

/-- The names that start with `u`. -/
def entitiesLowerU : List (String × String) :=
  [("uwangle;", "\u29a7"), ("uuml;", "\u00fc"), ("uuml", "\u00fc"), ("uuarr;", "\u21c8"),
    ("utrif;", "\u25b4"), ("utri;", "\u25b5"), ("utilde;", "\u0169"), ("utdot;", "\u22f0"),
    ("uscr;", "𝓊"), ("urtri;", "\u25f9"), ("uring;", "\u016f"), ("urcrop;", "\u230e"),
    ("urcorner;", "\u231d"), ("urcorn;", "\u231d"), ("upuparrows;", "\u21c8"),
    ("upsilon;", "\u03c5"), ("upsih;", "\u03d2"), ("upsi;", "\u03c5"), ("uplus;", "\u228e"),
    ("upharpoonright;", "\u21be"), ("upharpoonleft;", "\u21bf"), ("updownarrow;", "\u2195"),
    ("uparrow;", "\u2191"), ("uopf;", "𝕦"), ("uogon;", "\u0173"), ("uml;", "\u00a8"),
    ("uml", "\u00a8"), ("umacr;", "\u016b"), ("ultri;", "\u25f8"), ("ulcrop;", "\u230f"),
    ("ulcorner;", "\u231c"), ("ulcorn;", "\u231c"), ("uhblk;", "\u2580"), ("uharr;", "\u21be"),
    ("uharl;", "\u21bf"), ("ugrave;", "\u00f9"), ("ugrave", "\u00f9"), ("ufr;", "𝔲"),
    ("ufisht;", "\u297e"), ("udhar;", "\u296e"), ("udblac;", "\u0171"), ("udarr;", "\u21c5"),
    ("ucy;", "\u0443"), ("ucirc;", "\u00fb"), ("ucirc", "\u00fb"), ("ubreve;", "\u016d"),
    ("ubrcy;", "\u045e"), ("uarr;", "\u2191"), ("uacute;", "\u00fa"), ("uacute", "\u00fa"),
    ("uHar;", "\u2963"), ("uArr;", "\u21d1")]

/-- The names that start with `v`. -/
def entitiesLowerV : List (String × String) :=
  [("vzigzag;", "\u299a"), ("vsupne;", "\u228b\ufe00"), ("vsupnE;", "\u2acc\ufe00"),
    ("vsubne;", "\u228a\ufe00"), ("vsubnE;", "\u2acb\ufe00"), ("vscr;", "𝓋"),
    ("vrtri;", "\u22b3"), ("vprop;", "\u221d"), ("vopf;", "𝕧"), ("vnsup;", "\u2283\u20d2"),
    ("vnsub;", "\u2282\u20d2"), ("vltri;", "\u22b2"), ("vfr;", "𝔳"), ("vert;", "|"),
    ("verbar;", "|"), ("vellip;", "\u22ee"), ("veeeq;", "\u225a"), ("veebar;", "\u22bb"),
    ("vee;", "\u2228"), ("vdash;", "\u22a2"), ("vcy;", "\u0432"), ("vartriangleright;", "\u22b3"),
    ("vartriangleleft;", "\u22b2"), ("vartheta;", "\u03d1"), ("varsupsetneqq;", "\u2acc\ufe00"),
    ("varsupsetneq;", "\u228b\ufe00"), ("varsubsetneqq;", "\u2acb\ufe00"),
    ("varsubsetneq;", "\u228a\ufe00"), ("varsigma;", "\u03c2"), ("varrho;", "\u03f1"),
    ("varr;", "\u2195"), ("varpropto;", "\u221d"), ("varpi;", "\u03d6"), ("varphi;", "\u03d5"),
    ("varnothing;", "\u2205"), ("varkappa;", "\u03f0"), ("varepsilon;", "\u03f5"),
    ("vangrt;", "\u299c"), ("vDash;", "\u22a8"), ("vBarv;", "\u2ae9"), ("vBar;", "\u2ae8"),
    ("vArr;", "\u21d5")]

/-- The names that start with `w`. -/
def entitiesLowerW : List (String × String) :=
  [("wscr;", "𝓌"), ("wreath;", "\u2240"), ("wr;", "\u2240"), ("wp;", "\u2118"), ("wopf;", "𝕨"),
    ("wfr;", "𝔴"), ("weierp;", "\u2118"), ("wedgeq;", "\u2259"), ("wedge;", "\u2227"),
    ("wedbar;", "\u2a5f"), ("wcirc;", "\u0175")]

/-- The names that start with `x`. -/
def entitiesLowerX : List (String × String) :=
  [("xwedge;", "\u22c0"), ("xvee;", "\u22c1"), ("xutri;", "\u25b3"), ("xuplus;", "\u2a04"),
    ("xsqcup;", "\u2a06"), ("xscr;", "𝓍"), ("xrarr;", "\u27f6"), ("xrArr;", "\u27f9"),
    ("xotime;", "\u2a02"), ("xoplus;", "\u2a01"), ("xopf;", "𝕩"), ("xodot;", "\u2a00"),
    ("xnis;", "\u22fb"), ("xmap;", "\u27fc"), ("xlarr;", "\u27f5"), ("xlArr;", "\u27f8"),
    ("xi;", "\u03be"), ("xharr;", "\u27f7"), ("xhArr;", "\u27fa"), ("xfr;", "𝔵"),
    ("xdtri;", "\u25bd"), ("xcup;", "\u22c3"), ("xcirc;", "\u25ef"), ("xcap;", "\u22c2")]

/-- The names that start with `y`. -/
def entitiesLowerY : List (String × String) :=
  [("yuml;", "\u00ff"), ("yuml", "\u00ff"), ("yucy;", "\u044e"), ("yscr;", "𝓎"), ("yopf;", "𝕪"),
    ("yicy;", "\u0457"), ("yfr;", "𝔶"), ("yen;", "\u00a5"), ("yen", "\u00a5"), ("ycy;", "\u044b"),
    ("ycirc;", "\u0177"), ("yacy;", "\u044f"), ("yacute;", "\u00fd"), ("yacute", "\u00fd")]

/-- The names that start with `z`. -/
def entitiesLowerZ : List (String × String) :=
  [("zwnj;", "\u200c"), ("zwj;", "\u200d"), ("zscr;", "𝓏"), ("zopf;", "𝕫"),
    ("zigrarr;", "\u21dd"), ("zhcy;", "\u0436"), ("zfr;", "𝔷"), ("zeta;", "\u03b6"),
    ("zeetrf;", "\u2128"), ("zdot;", "\u017c"), ("zcy;", "\u0437"), ("zcaron;", "\u017e"),
    ("zacute;", "\u017a")]

/-- The names that start with a letter, in the order in which they are tried. -/
def entitiesFrom (c : Char) : List (String × String) :=
  match c with
  | 'A' => entitiesUpperA
  | 'B' => entitiesUpperB
  | 'C' => entitiesUpperC
  | 'D' => entitiesUpperD
  | 'E' => entitiesUpperE
  | 'F' => entitiesUpperF
  | 'G' => entitiesUpperG
  | 'H' => entitiesUpperH
  | 'I' => entitiesUpperI
  | 'J' => entitiesUpperJ
  | 'K' => entitiesUpperK
  | 'L' => entitiesUpperL
  | 'M' => entitiesUpperM
  | 'N' => entitiesUpperN
  | 'O' => entitiesUpperO
  | 'P' => entitiesUpperP
  | 'Q' => entitiesUpperQ
  | 'R' => entitiesUpperR
  | 'S' => entitiesUpperS
  | 'T' => entitiesUpperT
  | 'U' => entitiesUpperU
  | 'V' => entitiesUpperV
  | 'W' => entitiesUpperW
  | 'X' => entitiesUpperX
  | 'Y' => entitiesUpperY
  | 'Z' => entitiesUpperZ
  | 'a' => entitiesLowerA
  | 'b' => entitiesLowerB
  | 'c' => entitiesLowerC
  | 'd' => entitiesLowerD
  | 'e' => entitiesLowerE
  | 'f' => entitiesLowerF
  | 'g' => entitiesLowerG
  | 'h' => entitiesLowerH
  | 'i' => entitiesLowerI
  | 'j' => entitiesLowerJ
  | 'k' => entitiesLowerK
  | 'l' => entitiesLowerL
  | 'm' => entitiesLowerM
  | 'n' => entitiesLowerN
  | 'o' => entitiesLowerO
  | 'p' => entitiesLowerP
  | 'q' => entitiesLowerQ
  | 'r' => entitiesLowerR
  | 's' => entitiesLowerS
  | 't' => entitiesLowerT
  | 'u' => entitiesLowerU
  | 'v' => entitiesLowerV
  | 'w' => entitiesLowerW
  | 'x' => entitiesLowerX
  | 'y' => entitiesLowerY
  | 'z' => entitiesLowerZ
  | _ => []

end Scaffold.Html
